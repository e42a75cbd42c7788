import ClientGen.Proofs.TypeScript.Nesting
/-!
# Matching brackets

The bracket that closes another one. Behind a text with complete literals and brackets it is the next one, and without
it there is none; in any text, what is found is a closing bracket of the right kind outside literals.
-/

namespace ClientGen.Source

open Text

/-! ## Any text -/

private theorem getElem?_closeFrom {stack : List Char} {first : Char} {i j : Nat} {ms : List Mark}
    (hs : stack.getLast? = some first) (h : closeFrom stack i ms = some j) :
    ∃ k, j = i + k ∧ ms[k]? = some ⟨first, false⟩ := by
  induction ms generalizing stack i with
  | nil => cases h
  | cons m ms ih =>
    have hnext {stack : List Char} (hs : stack.getLast? = some first) (h : closeFrom stack (i + 1) ms = some j) :
        ∃ k, j = i + k ∧ (m :: ms)[k]? = some ⟨first, false⟩ := by
      obtain ⟨k, rfl, hk⟩ := ih hs h
      exact ⟨k + 1, by omega, hk⟩
    simp only [closeFrom] at h
    split at h
    · exact hnext hs h
    · next hquoted =>
      split at h
      · next closer _ =>
        obtain ⟨c, stack, rfl⟩ := List.exists_cons_of_ne_nil (l := stack) (by rintro rfl; cases hs)
        exact hnext (by rwa [List.getLast?_cons_cons]) h
      · split at h
        · cases hs
        · next top below =>
          split at h
          · next htop =>
            split at h
            · next hbelow =>
              -- The last open bracket is also the first: the search ends.
              subst hbelow
              cases h
              cases hs
              exact ⟨0, rfl, by cases m; simp_all⟩
            · next hbelow =>
              obtain ⟨c, below, rfl⟩ := List.exists_cons_of_ne_nil hbelow
              exact hnext (by rwa [List.getLast?_cons_cons] at hs) h
          · exact hnext hs h

/-- In any text, what is found for a bracket stands behind it, closes its kind of brackets and belongs to no literal. -/
theorem getElem?_matchingClose? {o c : Char} (ho : closer? o = some c) {t : Text} {i j : Nat} (hi : t[i]? = some o)
    (h : matchingClose? t i = some j) : ∃ k, j = i + 1 + k ∧ (marks (t.drop (i + 1)))[k]? = some ⟨c, false⟩ := by
  have hdrop : t.drop i = o :: t.drop (i + 1) := by
    obtain ⟨hlt, rfl⟩ := List.getElem?_eq_some_iff.1 hi
    exact List.drop_eq_getElem_cons hlt
  rw [matchingClose?, hdrop, marks_cons (isQuote_opener ho), closeFrom] at h
  simp only [Bool.false_eq_true, if_false, ho] at h
  exact getElem?_closeFrom rfl h

/-! ## Complete texts -/

private theorem closeFrom_add (stack : List Char) (i k : Nat) (ms : List Mark) :
    closeFrom stack (i + k) ms = (closeFrom stack i ms).map (· + k) := by
  induction ms generalizing stack i with
  | nil => rfl
  | cons m ms ih =>
    have ih (stack : List Char) : closeFrom stack (i + k + 1) ms = (closeFrom stack (i + 1) ms).map (· + k) := by
      rw [← ih stack (i + 1), Nat.add_right_comm]
    simp only [closeFrom, ih]
    split
    · rfl
    · split
      · rfl
      · split
        · rfl
        · split
          · split <;> rfl
          · rfl

theorem matchingClose?_append (a t : Text) :
    matchingClose? (a ++ t) a.length = (matchingClose? t 0).map (· + a.length) := by
  rw [matchingClose?, matchingClose?, List.drop_left, List.drop_zero, ← closeFrom_add, Nat.zero_add]

/-- A text of complete literals, complete brackets and characters that are neither quotes nor brackets. -/
abbrev IsComplete : Text → Prop := Nested (fun _ => true) fun _ => true

/-- The partner of a bracket is found right behind a complete text, whatever stands before the one and behind the other,
and none is found when the text ends there. -/
theorem matchingClose?_partner {o c : Char} (ho : closer? o = some c) {w : Text} (hw : IsComplete w) (pre rest : Text) :
    matchingClose? (pre ++ [o] ++ w ++ [c] ++ rest) pre.length = some (pre.length + 1 + w.length) ∧
      matchingClose? (pre ++ [o] ++ w) pre.length = none := by
  have hclosed : matchingClose? (o :: (w ++ c :: rest)) 0 = some (w.length + 1) := matchingClose?_nested ho hw
  have hopen : matchingClose? (o :: w) 0 = none := matchingClose?_unclosed ho hw
  have hplace : w.length + 1 + pre.length = pre.length + 1 + w.length := by omega
  constructor
  · have hshape : pre ++ [o] ++ w ++ [c] ++ rest = pre ++ o :: (w ++ c :: rest) := by simp
    rw [hshape, matchingClose?_append, hclosed, Option.map_some, hplace]
  · have hshape : pre ++ [o] ++ w = pre ++ o :: w := by simp
    rw [hshape, matchingClose?_append, hopen, Option.map_none]

/-- An escaped quote behind a closing bracket in a string, and a line feed before an opening one in a template. -/
theorem matchingClose?_partner_of_call :
    let w : Text := "f(')\\'', [\x60\n\x7b\x60])"
    closer? '\x7b' = some '\x7d' ∧ IsComplete w ∧
      matchingClose? ("x = ".toList ++ ['\x7b'] ++ w ++ ['\x7d'] ++ "; \x7d".toList) 4 = some (4 + 1 + w.length) ∧
      matchingClose? ("x = ".toList ++ ['\x7b'] ++ w) 4 = none := by
  intro w
  have hbody : LiteralBody '\'' ")\\'" := .plain (by decide) (by decide) (by decide) (.escape .nil)
  have hstring : IsComplete "')\\''".toList := .quoted (q := '\'') (by decide) hbody
  have hlines : LiteralBody '\x60' "\n\x7b" := .of_forall (by decide)
  have htemplate : IsComplete "\x60\n\x7b\x60".toList := .quoted (q := '\x60') (by decide) hlines
  have hlist : IsComplete "[\x60\n\x7b\x60]".toList := .bracketed (o := '[') (by decide) htemplate
  have hcomma : IsComplete ", ".toList := .of_plain (by decide)
  have hw : IsComplete w :=
    .plain (by decide) rfl (.bracketed (o := '(') (c := ')') (by decide) ((hstring.append hcomma).append hlist))
  exact ⟨by decide, hw, matchingClose?_partner (by decide) hw _ _⟩

end ClientGen.Source
