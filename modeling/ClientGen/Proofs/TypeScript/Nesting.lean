import ClientGen.Proofs.Text.Pieces
import ClientGen.TypeScript.Lexical
/-!
# Nested text

A text is nested when its literals and brackets are complete. Every scanner of source text passes over a
nested text as a whole: the search for a closing bracket, the division at separators, the search for the
end of a statement, and the removal of comments.
-/

namespace ClientGen.Source

open Text

/-- What stands in a literal before the quote `q` that closes it. -/
inductive LiteralBody (q : Char) : Text → Prop
  | nil : LiteralBody q []
  | plain {c : Char} {t : Text} (hb : c ≠ '\\') (hq : c ≠ q) (hl : c = '\n' → q = '\x60')
      (ht : LiteralBody q t) : LiteralBody q (c :: t)
  | escape {c : Char} {t : Text} (ht : LiteralBody q t) : LiteralBody q ('\\' :: c :: t)

/-- Whether a character is neither a quote nor a bracket. -/
def isPlain (c : Char) : Bool := !isQuote c && (closer? c).isNone && !isCloser c

theorem LiteralBody.of_forall {q : Char} {t : Text}
    (h : ∀ c ∈ t, c ≠ '\\' ∧ c ≠ q ∧ (c = '\n' → q = '\x60')) : LiteralBody q t := by
  induction t with
  | nil => exact nil
  | cons c t ih =>
    obtain ⟨hb, hq, hl⟩ := h c List.mem_cons_self
    exact plain hb hq hl (ih fun d hd => h d (List.mem_cons_of_mem _ hd))

theorem LiteralBody.append {q : Char} {a b : Text} (ha : LiteralBody q a) (hb : LiteralBody q b) :
    LiteralBody q (a ++ b) := by
  induction ha with
  | nil => exact hb
  | plain hc hq hl _ ih => exact plain hc hq hl ih
  | escape _ ih => exact escape ih

theorem LiteralBody.flatMap {α : Type} {q : Char} {f : α → Text} (h : ∀ a, LiteralBody q (f a))
    (as : List α) : LiteralBody q (as.flatMap f) := by
  induction as with
  | nil => exact nil
  | cons a as ih => exact (h a).append ih

/-- A text with complete literals and brackets. Other characters satisfy `inner` inside brackets and
`outer` outside them. -/
inductive Nested (inner : Char → Bool) : (outer : Char → Bool) → Text → Prop
  | nil {outer : Char → Bool} : Nested inner outer []
  | plain {outer : Char → Bool} {c : Char} {t : Text} (hc : isPlain c = true)
      (ho : outer c = true) (ht : Nested inner outer t) : Nested inner outer (c :: t)
  | literal {outer : Char → Bool} {q : Char} {b t : Text} (hq : isQuote q = true)
      (hb : LiteralBody q b) (ht : Nested inner outer t) : Nested inner outer (q :: b ++ q :: t)
  | bracket {outer : Char → Bool} {o c : Char} {v t : Text} (ho : closer? o = some c)
      (hv : Nested inner inner v) (ht : Nested inner outer t) :
      Nested inner outer (o :: v ++ c :: t)

variable {inner outer : Char → Bool} {t r : Text}

namespace Nested

theorem append {a b : Text} (ha : Nested inner outer a) (hb : Nested inner outer b) :
    Nested inner outer (a ++ b) := by
  induction ha with
  | nil => exact hb
  | plain hc ho _ ih => exact plain hc ho (ih hb)
  | literal hq hl _ ih => simpa using literal hq hl (ih hb)
  | bracket ho hv _ _ ih => simpa using bracket ho hv (ih hb)

theorem mono {outer' : Char → Bool} (h : Nested inner outer t)
    (hle : ∀ c, outer c = true → outer' c = true) : Nested inner outer' t := by
  induction h with
  | nil => exact nil
  | plain hc ho _ ih => exact plain hc (hle _ ho) (ih hle)
  | literal hq hl _ ih => exact literal hq hl (ih hle)
  | bracket ho hv _ _ ih => exact bracket ho hv (ih hle)

theorem of_plain (h : ∀ c ∈ t, isPlain c = true ∧ outer c = true) : Nested inner outer t := by
  induction t with
  | nil => exact nil
  | cons c t ih =>
    obtain ⟨hc, ho⟩ := h c List.mem_cons_self
    exact plain hc ho (ih fun d hd => h d (List.mem_cons_of_mem _ hd))

theorem quoted {q : Char} {b : Text} (hq : isQuote q = true) (hb : LiteralBody q b) :
    Nested inner outer (q :: b ++ [q]) := literal hq hb nil

theorem bracketed {o c : Char} {v : Text} (ho : closer? o = some c) (hv : Nested inner inner v) :
    Nested inner outer (o :: v ++ [c]) := bracket ho hv nil

theorem join {sep : Text} {ps : List Text} (hs : Nested inner outer sep)
    (hp : ∀ p ∈ ps, Nested inner outer p) : Nested inner outer (join sep ps) := by
  induction ps with
  | nil => exact nil
  | cons p ps ih =>
    have ih := ih fun p hm => hp p (List.mem_cons_of_mem _ hm)
    cases ps with
    | nil => simpa using hp p List.mem_cons_self
    | cons q ps =>
      rw [join_cons (by simp)]
      exact ((hp p List.mem_cons_self).append hs).append ih

end Nested

/-! ## Marks -/

theorem ne_backslash_of_isQuote {q : Char} (hq : isQuote q = true) : q ≠ '\\' := by
  rintro rfl
  exact absurd hq (by decide)

/-- The facts about a pair of brackets that scanners look at. -/
private structure IsPair (o c : Char) : Prop where
  opener_not_quote : isQuote o = false
  closer_not_quote : isQuote c = false
  closer_closes : isCloser c = true
  closer_opens_none : closer? c = none

private theorem isPair_of_closer? {o c : Char} (h : closer? o = some c) : IsPair o c := by
  unfold closer? at h
  split at h
  · cases h; subst o; exact ⟨by decide, by decide, by decide, by decide⟩
  · split at h
    · cases h; subst o; exact ⟨by decide, by decide, by decide, by decide⟩
    · split at h
      · cases h; subst o; exact ⟨by decide, by decide, by decide, by decide⟩
      · cases h

theorem isQuote_opener {o c : Char} (h : closer? o = some c) : isQuote o = false :=
  (isPair_of_closer? h).opener_not_quote

private theorem isPlain_iff {c : Char} :
    isPlain c = true ↔ isQuote c = false ∧ closer? c = none ∧ isCloser c = false := by
  simp [isPlain, and_assoc]

/-- The bracket at the beginning of a nested text is closed in it. -/
theorem Nested.of_opener {o c : Char} {u : Text} (ho : closer? o = some c)
    (h : Nested inner outer (o :: u)) :
    ∃ v w, u = v ++ c :: w ∧ Nested inner inner v ∧ Nested inner outer w := by
  have hp := isPair_of_closer? ho
  generalize hu : o :: u = t at h
  cases h with
  | nil => cases hu
  | plain hc _ _ =>
    obtain ⟨rfl, -⟩ := List.cons_eq_cons.1 hu
    simp [isPlain_iff.1 hc] at ho
  | literal hq _ _ =>
    obtain ⟨rfl, -⟩ := List.cons_eq_cons.1 hu
    simp [hp.opener_not_quote] at hq
  | bracket ho' hv hw =>
    obtain ⟨rfl, hrest⟩ := List.cons_eq_cons.1 hu
    obtain rfl : c = _ := Option.some.inj (ho.symm.trans ho')
    exact ⟨_, _, hrest, hv, hw⟩

theorem marks_cons {c : Char} (hc : isQuote c = false) : marks (c :: t) = ⟨c, false⟩ :: marks t := by
  simp [marks, marksFrom, Mode.step, hc]

private theorem marksFrom_literal {q : Char} {b : Text} (hq : isQuote q = true)
    (hb : LiteralBody q b) :
    marksFrom (.literal q) (b ++ q :: r) = (b ++ [q]).map (⟨·, true⟩) ++ marks r := by
  induction hb with
  | nil => simp [marksFrom, Mode.step, ne_backslash_of_isQuote hq, marks]
  | @plain c t hc hcq hl _ ih =>
    have hstep : Mode.step (.literal q) c = (.literal q, true) := by
      by_cases hn : c = '\n'
      · have hq' := hl hn
        subst hq'
        simp [Mode.step, hc, hcq]
      · simp [Mode.step, hc, hcq, hn]
    rw [List.cons_append, marksFrom, hstep, ih, List.cons_append, List.map_cons, List.cons_append]
  | escape _ ih =>
    rw [List.cons_append, List.cons_append, marksFrom, marksFrom]
    simp only [Mode.step, if_true]
    rw [ih]
    rfl

theorem marks_literal {q : Char} {b : Text} (hq : isQuote q = true) (hb : LiteralBody q b) :
    marks (q :: (b ++ q :: r)) = (q :: (b ++ [q])).map (⟨·, true⟩) ++ marks r := by
  rw [marks, marksFrom]
  simp only [Mode.step, hq, if_true]
  rw [marksFrom_literal hq hb, List.map_cons, List.cons_append]

theorem marks_append (h : Nested inner outer t) : marks (t ++ r) = marks t ++ marks r := by
  induction h generalizing r with
  | nil => rfl
  | plain hc _ _ ih =>
    have hq := (isPlain_iff.1 hc).1
    rw [List.cons_append, marks_cons hq, marks_cons hq, ih, List.cons_append]
  | literal hq hb _ ih =>
    simp only [List.cons_append, List.append_assoc]
    rw [marks_literal hq hb, marks_literal hq hb, ih, List.append_assoc]
  | bracket ho _ _ ihv iht =>
    have hp := isPair_of_closer? ho
    simp only [List.cons_append, List.append_assoc]
    rw [marks_cons hp.opener_not_quote, marks_cons hp.opener_not_quote, ihv, ihv,
      marks_cons hp.closer_not_quote, marks_cons hp.closer_not_quote, iht]
    simp only [List.cons_append, List.append_assoc]

/-! ## Brackets -/

private theorem closeFrom_quoted (stack : List Char) (i : Nat) (ms : List Mark) :
    closeFrom stack i (t.map (⟨·, true⟩) ++ ms) = closeFrom stack (i + t.length) ms := by
  induction t generalizing i with
  | nil => rfl
  | cons c t ih =>
    simp only [List.map_cons, List.cons_append, closeFrom, if_true, ih, List.length_cons]
    rw [Nat.add_assoc, Nat.add_comm 1]

theorem closeFrom_nested (h : Nested inner outer t) {stack : List Char} (hs : stack ≠ [])
    (hclose : ∀ c ∈ stack, isCloser c = true) (i : Nat) (ms : List Mark) :
    closeFrom stack i (marks t ++ ms) = closeFrom stack (i + t.length) ms := by
  induction h generalizing stack i ms with
  | nil => rfl
  | @plain _ c t hc _ _ ih =>
    obtain ⟨hq, ho, hcl⟩ := isPlain_iff.1 hc
    obtain ⟨top, below, rfl⟩ := List.exists_cons_of_ne_nil hs
    have htop : c ≠ top := by
      rintro rfl
      simp [hclose c List.mem_cons_self] at hcl
    rw [marks_cons hq, List.cons_append, closeFrom]
    simp only [Bool.false_eq_true, if_false, ho, htop]
    rw [ih hs hclose, List.length_cons, Nat.add_assoc, Nat.add_comm 1]
  | @literal _ q b t hq hb _ ih =>
    rw [List.cons_append, marks_literal hq hb, List.append_assoc, closeFrom_quoted, ih hs hclose]
    congr 1
    simp only [List.length_cons, List.length_append, List.length_nil]
    omega
  | @bracket _ o c v t ho hv _ ihv iht =>
    have hp := isPair_of_closer? ho
    rw [List.cons_append, marks_cons hp.opener_not_quote, marks_append hv,
      marks_cons hp.closer_not_quote]
    simp only [List.cons_append, List.append_assoc, closeFrom, Bool.false_eq_true, if_false, ho]
    rw [ihv (by simp) (by simpa [hp.closer_closes] using hclose), closeFrom]
    simp only [Bool.false_eq_true, if_false, hp.closer_opens_none, if_true, hs]
    rw [iht hs hclose]
    congr 1
    simp only [List.length_cons, List.length_append]
    omega

/-- The bracket behind a nested text closes the bracket before it. -/
theorem matchingClose?_nested {o c : Char} {v : Text} (ho : closer? o = some c)
    (hv : Nested inner outer v) : matchingClose? (o :: (v ++ c :: r)) 0 = some (v.length + 1) := by
  have hp := isPair_of_closer? ho
  rw [matchingClose?, List.drop_zero, marks_cons hp.opener_not_quote, closeFrom]
  simp only [Bool.false_eq_true, if_false, ho]
  rw [marks_append hv, closeFrom_nested hv (by simp) (by simpa using hp.closer_closes),
    marks_cons hp.closer_not_quote, closeFrom]
  simp only [Bool.false_eq_true, if_false, hp.closer_opens_none, if_true]
  congr 1
  omega

theorem matchingClose?_unclosed {o c : Char} {v : Text} (ho : closer? o = some c)
    (hv : Nested inner outer v) : matchingClose? (o :: v) 0 = none := by
  have hp := isPair_of_closer? ho
  have hopen := closeFrom_nested hv (List.cons_ne_nil c []) (by simpa using hp.closer_closes) 1 []
  rw [List.append_nil] at hopen
  rw [matchingClose?, List.drop_zero, marks_cons hp.opener_not_quote, closeFrom]
  simp only [Bool.false_eq_true, if_false, ho]
  rw [hopen, closeFrom]

/-! ## Separators -/

/-- The pieces with `t` before the first of them. -/
def onFirst (t : Text) : List Text → List Text
  | [] => [t]
  | piece :: pieces => (t ++ piece) :: pieces

theorem onFirst_append (a b : Text) (pieces : List Text) :
    onFirst (a ++ b) pieces = onFirst a (onFirst b pieces) := by
  cases pieces <;> simp [onFirst]

private theorem splitMarks_cons {sep : Char → Bool} {d : Int} {m : Mark} {ms : List Mark}
    (h : m.quoted = true ∨ 0 < d + m.depthChange ∨ sep m.char = false) :
    splitMarks sep d (m :: ms) = onFirst [m.char] (splitMarks sep (d + m.depthChange) ms) := by
  have hno : (!m.quoted && decide (d + m.depthChange ≤ 0) && sep m.char) = false := by
    rcases h with h | h | h
    · simp [h]
    · simp [Int.not_le.2 h]
    · simp [h]
  simp only [splitMarks, hno, Bool.false_eq_true, if_false]
  cases splitMarks sep (d + m.depthChange) ms <;> rfl

private theorem onFirst_nil_splitMarks (sep : Char → Bool) (d : Int) (ms : List Mark) :
    onFirst [] (splitMarks sep d ms) = splitMarks sep d ms := by
  cases ms with
  | nil => rfl
  | cons m ms =>
    simp only [splitMarks]
    split
    · rfl
    · cases splitMarks sep (d + m.depthChange) ms <;> rfl

private theorem splitMarks_quoted (sep : Char → Bool) (d : Int) (ms : List Mark) (t : Text) :
    splitMarks sep d (t.map (⟨·, true⟩) ++ ms) = onFirst t (splitMarks sep d ms) := by
  induction t with
  | nil => exact (onFirst_nil_splitMarks sep d ms).symm
  | cons c t ih =>
    rw [List.map_cons, List.cons_append, splitMarks_cons (.inl rfl)]
    simp only [Mark.depthChange, if_true, Int.add_zero]
    rw [ih, ← onFirst_append, List.singleton_append]

private theorem depthChange_plain {c : Char} (hc : isPlain c = true) :
    Mark.depthChange ⟨c, false⟩ = 0 := by
  obtain ⟨-, ho, hcl⟩ := isPlain_iff.1 hc
  simp [Mark.depthChange, ho, hcl]

private theorem depthChange_opener {o c : Char} (ho : closer? o = some c) :
    Mark.depthChange ⟨o, false⟩ = 1 := by
  simp [Mark.depthChange, ho]

private theorem depthChange_closer {o c : Char} (ho : closer? o = some c) :
    Mark.depthChange ⟨c, false⟩ = -1 := by
  have hp := isPair_of_closer? ho
  simp [Mark.depthChange, hp.closer_opens_none, hp.closer_closes]

/-- A nested text is part of one piece, inside brackets or if its outer characters separate nothing. -/
theorem splitMarks_nested {sep : Char → Bool} (hsep : ∀ c, sep c = true → isPlain c = true)
    (h : Nested inner outer t) {d : Int}
    (hd : 0 < d ∨ d = 0 ∧ ∀ c, outer c = true → sep c = false) (ms : List Mark) :
    splitMarks sep d (marks t ++ ms) = onFirst t (splitMarks sep d ms) := by
  induction h generalizing d ms with
  | nil => exact (onFirst_nil_splitMarks sep d ms).symm
  | @plain outer c t hc ho _ ih =>
    have hno : false = true ∨ 0 < d + 0 ∨ sep c = false := by
      rcases hd with hd | ⟨-, hd⟩
      · exact .inr (.inl (by omega))
      · exact .inr (.inr (hd c ho))
    rw [marks_cons (isPlain_iff.1 hc).1, List.cons_append,
      splitMarks_cons (by rwa [depthChange_plain hc]), depthChange_plain hc, Int.add_zero, ih hd,
      ← onFirst_append, List.singleton_append]
  | @literal outer q b t hq hb _ ih =>
    rw [List.cons_append, marks_literal hq hb, List.append_assoc, splitMarks_quoted, ih hd,
      ← onFirst_append]
    simp
  | @bracket outer o c v t ho hv _ ihv iht =>
    have hp := isPair_of_closer? ho
    have hopen : 0 < d + 1 := by rcases hd with hd | ⟨rfl, -⟩ <;> omega
    have hclose : sep c = false := by
      cases hc : sep c with
      | false => rfl
      | true => simpa [hp.closer_closes] using (isPlain_iff.1 (hsep c hc)).2.2
    rw [List.cons_append, marks_cons hp.opener_not_quote, marks_append hv,
      marks_cons hp.closer_not_quote]
    simp only [List.cons_append, List.append_assoc]
    rw [splitMarks_cons (by rw [depthChange_opener ho]; exact .inr (.inl hopen)),
      depthChange_opener ho, ihv (.inl hopen), splitMarks_cons (.inr (.inr hclose)),
      depthChange_closer ho, Int.add_neg_cancel_right, iht hd, ← onFirst_append, ← onFirst_append,
      ← onFirst_append]
    simp

/-- A separator outside brackets ends a nested text that holds none. -/
theorem splitMarks_separator {sep : Char → Bool} (hsep : ∀ c, sep c = true → isPlain c = true)
    (ho : ∀ c, outer c = true → sep c = false) (h : Nested inner outer t) {c : Char}
    (hc : sep c = true) :
    splitMarks sep 0 (marks (t ++ c :: r)) = t :: splitMarks sep 0 (marks r) := by
  have hplain := hsep c hc
  have hnext : splitMarks sep 0 (⟨c, false⟩ :: marks r) = [] :: splitMarks sep 0 (marks r) := by
    simp [splitMarks, depthChange_plain hplain, hc]
  rw [marks_append h, marks_cons (isPlain_iff.1 hplain).1,
    splitMarks_nested hsep h (.inr ⟨rfl, ho⟩), hnext]
  simp [onFirst]

/-! ## Statements -/

private theorem statementLength_quoted (d : Int) (blank : Bool) (ms : List Mark) (t : Text) :
    statementLength d blank (t.map (⟨·, true⟩) ++ ms) =
      t.length + statementLength d (blank && allBlank t) ms := by
  induction t generalizing blank with
  | nil => simp [allBlank]
  | cons c t ih =>
    simp only [List.map_cons, List.cons_append, statementLength, Bool.true_or, if_true,
      Mark.depthChange, Int.add_zero, ih, allBlank, List.all_cons, List.length_cons, Bool.and_assoc]
    omega

private theorem statementLength_of_change {d : Int} {blank : Bool} {m : Mark} {ms : List Mark}
    (hm : m.depthChange ≠ 0) :
    statementLength d blank (m :: ms) =
      statementLength (d + m.depthChange) (blank && isBlank m.char) ms + 1 := by
  simp [statementLength, hm]

/-- A nested text is part of one statement, inside brackets or if its outer characters end none. -/
theorem statementLength_nested (h : Nested inner outer t) {d : Int}
    (hd : 0 < d ∨ d = 0 ∧ ∀ c, outer c = true → c ≠ ';' ∧ c ≠ '\n') (blank : Bool)
    (ms : List Mark) :
    statementLength d blank (marks t ++ ms) =
      t.length + statementLength d (blank && allBlank t) ms := by
  induction h generalizing d blank ms with
  | nil => simp [allBlank, marks, marksFrom]
  | @plain outer c t hc ho _ ih =>
    have hsemi : (decide (d ≤ 0) && decide (c = ';')) = false := by
      rcases hd with hd | ⟨-, hd⟩
      · simp [Int.not_le.2 hd]
      · simp [(hd c ho).1]
    have hline (b : Bool) : (decide (d ≤ 0) && decide (c = '\n') && b) = false := by
      rcases hd with hd | ⟨-, hd⟩
      · simp [Int.not_le.2 hd]
      · simp [(hd c ho).2]
    rw [marks_cons (isPlain_iff.1 hc).1, List.cons_append, statementLength]
    simp only [depthChange_plain hc, Bool.false_or, ne_eq, not_true_eq_false, decide_false,
      Bool.false_eq_true, if_false, hsemi]
    rw [Bool.and_assoc, hline]
    simp only [Bool.false_eq_true, if_false, ih hd, allBlank, List.all_cons, List.length_cons,
      Bool.and_assoc]
    omega
  | @literal outer q b t hq hb _ ih =>
    rw [List.cons_append, marks_literal hq hb, List.append_assoc, statementLength_quoted, ih hd]
    simp only [allBlank, List.all_cons, List.all_append, List.all_nil, Bool.and_true,
      List.length_cons, List.length_append, List.length_nil, Bool.and_assoc]
    omega
  | @bracket outer o c v t ho hv _ ihv iht =>
    have hp := isPair_of_closer? ho
    -- inside the bracket any character may stand, because the depth is positive there
    have hopen : 0 < d + 1 := by rcases hd with hd | ⟨rfl, -⟩ <;> omega
    rw [List.cons_append, marks_cons hp.opener_not_quote, marks_append hv,
      marks_cons hp.closer_not_quote]
    simp only [List.cons_append, List.append_assoc]
    rw [statementLength_of_change (by simp [depthChange_opener ho]), depthChange_opener ho,
      ihv (.inl hopen), statementLength_of_change (by simp [depthChange_closer ho]),
      depthChange_closer ho, Int.add_neg_cancel_right, iht hd]
    simp only [allBlank, List.all_cons, List.all_append, List.length_cons, List.length_append,
      Bool.and_assoc]
    omega

/-! ## Comments -/

theorem literalRest?_append {q : Char} {b : Text} (hq : isQuote q = true) (hb : LiteralBody q b) :
    literalRest? q (b ++ q :: r) = some (b ++ [q]) := by
  induction hb with
  | nil =>
    have hne := ne_backslash_of_isQuote hq
    simp [literalRest?, hne]
  | @plain c t hc hcq hl _ ih =>
    rw [List.cons_append, literalRest?]
    · simpa [hcq, ih] using hl
    · intro h _
      exact hc h
    · intro _ _ h _
      exact hc h
  | escape _ ih => simp [literalRest?, ih]

private theorem commentAt_of_ne {c : Char} {cs : Text} (hq : isQuote c = false) (hc : c ≠ '/') :
    commentAt (c :: cs) = none := by
  unfold commentAt
  split
  · next h => cases h
  · next h => exact absurd (List.cons_eq_cons.1 h).1 hc
  · next h => exact absurd (List.cons_eq_cons.1 h).1 hc
  · next h =>
    obtain ⟨rfl, rfl⟩ := List.cons_eq_cons.1 h
    simp [hq]

theorem stripComments_cons {c : Char} (hq : isQuote c = false) (hc : c ≠ '/') :
    stripComments (c :: r) = c :: stripComments r :=
  substitute_cons_of_none (commentAt_of_ne hq hc)

theorem stripComments_literal {q : Char} {b : Text} (hq : isQuote q = true) (hb : LiteralBody q b) :
    stripComments (q :: (b ++ q :: r)) = q :: (b ++ q :: stripComments r) := by
  have hslash : q ≠ '/' := by
    rintro rfl
    exact absurd hq (by decide)
  have hat : commentAt (q :: (b ++ [q]) ++ r) = some (q :: (b ++ [q]), (q :: (b ++ [q])).length) := by
    rw [List.cons_append, List.append_assoc, List.singleton_append]
    unfold commentAt
    split
    · next h => cases h
    · next h => exact absurd (List.cons_eq_cons.1 h).1 hslash
    · next h => exact absurd (List.cons_eq_cons.1 h).1 hslash
    · next h =>
      obtain ⟨rfl, rfl⟩ := List.cons_eq_cons.1 h
      simp [hq, literalRest?_append hq hb]
  have h := substitute_append_of_some (by simp) hat
  simpa [stripComments] using h

/-- No comment begins in a nested text without slashes outside its literals. -/
theorem stripComments_nested (h : Nested inner outer t) (hi : inner '/' = false)
    (ho : outer '/' = false) : stripComments (t ++ r) = t ++ stripComments r := by
  induction h generalizing r with
  | nil => rfl
  | @plain outer c t hc hoc _ ih =>
    have hslash : c ≠ '/' := by
      rintro rfl
      simp [ho] at hoc
    rw [List.cons_append, stripComments_cons (isPlain_iff.1 hc).1 hslash, ih ho, List.cons_append]
  | literal hq hb _ ih =>
    simp only [List.cons_append, List.append_assoc]
    rw [stripComments_literal hq hb, ih ho]
  | @bracket outer o c v t hoc hv _ ihv iht =>
    have hp := isPair_of_closer? hoc
    have hos : o ≠ '/' := by
      rintro rfl
      simp [closer?] at hoc
    have hcs : c ≠ '/' := by
      rintro rfl
      simpa [isCloser] using hp.closer_closes
    simp only [List.cons_append, List.append_assoc]
    rw [stripComments_cons hp.opener_not_quote hos, ihv hi,
      stripComments_cons hp.closer_not_quote hcs, iht ho]

theorem stripComments_block {b : Text} (h : ¬"*/".toList <:+: b ++ ['*']) :
    stripComments ("/*".toList ++ b ++ "*/".toList ++ r) = stripComments r := by
  have hcut : cut? "*/" (b ++ "*/".toList ++ r) = some (b, r) :=
    (cut?_append_iff (by decide)).2 (by simpa using h)
  have hat : commentAt ("/*".toList ++ b ++ "*/".toList ++ r) =
      some ([], ("/*".toList ++ b ++ "*/".toList).length) := by
    have hshape : "/*".toList ++ b ++ "*/".toList ++ r = '/' :: '*' :: (b ++ "*/".toList ++ r) := by
      simp
    rw [hshape, commentAt, hcut]
    simp
  exact substitute_append_of_some (by simp) hat

/-- A comment with a margin behind its opening and before its end disappears. -/
theorem stripComments_comment {s : Text} (h : ¬"*/".toList <:+: s) :
    stripComments ("/** ".toList ++ s ++ " */".toList ++ r) = stripComments r := by
  have hfirst : ¬"*/".toList <:+: ("* ".toList ++ s ++ [' ']) ++ ['*'] := by
    have hsplit : ("* ".toList ++ s ++ [' ']) ++ ['*'] = ['*'] ++ ' ' :: (s ++ ' ' :: ['*']) := by simp
    rw [hsplit, infix_append_cons_iff (by decide), infix_append_cons_iff (by decide)]
    simpa using ⟨by decide, h, by decide⟩
  simpa using stripComments_block hfirst (r := r)

end ClientGen.Source
