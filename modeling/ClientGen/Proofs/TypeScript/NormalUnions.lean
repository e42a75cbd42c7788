import ClientGen.Proofs.Text.Escapes
import ClientGen.Proofs.Text.Spaces
import ClientGen.TypeScript.TypeExpr
import ClientGen.TypeScript.TypeText
/-!
# Normal forms of unions of texts

The normal form of a type text does not know literals: it treats the blanks and the punctuation in them like those
between them. So two unions of texts have one normal form exactly if their texts are the same up to these.
-/

namespace ClientGen.Source

open Text

/-! ## Characters that stay -/

/-- What stands on the two sides of a character that is neither a space nor punctuation is tightened apart. -/
theorem tighten_append_cons {c : Char} (hc : c ≠ ' ') (hp : isPunctuation c = false) (behind : Bool) (a b : Text) :
    tighten.go behind (a ++ c :: b) = tighten.go behind a ++ c :: tighten.go false b := by
  induction a generalizing behind with
  | nil => simp [tighten.go, hc, hp]
  | cons d a ih =>
    have hhead : ((a ++ c :: b).head?.map isPunctuation).getD false = (a.head?.map isPunctuation).getD false := by
      cases a with
      | nil => simp [hp]
      | cons => rfl
    rw [List.cons_append, tighten.go, tighten.go, hhead, ih, ih]
    split <;> rfl

theorem tighten_cons {c : Char} (hc : c ≠ ' ') (behind : Bool) (t : Text) :
    tighten.go behind (c :: t) = c :: tighten.go (isPunctuation c) t := by
  simp [tighten.go, hc]

theorem tighten_of_noSpace {t : Text} (h : ' ' ∉ t) (behind : Bool) : tighten.go behind t = t := by
  induction t generalizing behind with
  | nil => rfl
  | cons c t ih =>
    rw [List.mem_cons, not_or] at h
    rw [tighten_cons (Ne.symm h.1), ih h.2]

/-! ## One literal -/

/-- A text as the normal form of its literal shows it: one space for each run of blanks, and none beside
punctuation. -/
def loosened (t : Text) : Text := tighten (spaced false t)

theorem loosened_of_noBlank {t : Text} (h : ∀ c ∈ t, isBlank c = false) : loosened t = t := by
  have hspace : ' ' ∉ t := fun hs => absurd (h ' ' hs) (by decide)
  rw [loosened, spaced_of_noBlank h, tighten, tighten_of_noSpace hspace]

private theorem escaped_facts {c : Char} (h : isEscaped c = true) :
    isBlank c = false ∧ c ≠ ' ' ∧ isPunctuation c = false := by
  simp only [isEscaped, Bool.or_eq_true, decide_eq_true_eq] at h
  rcases h with rfl | rfl <;> decide

theorem spaced_escapeLiteral (inRun : Bool) (t : Text) :
    spaced inRun (escapeLiteral t) = escapeLiteral (spaced inRun t) := by
  induction t generalizing inRun with
  | nil => rfl
  | cons c t ih =>
    by_cases he : isEscaped c = true
    · obtain ⟨hc, -, -⟩ := escaped_facts he
      rw [escapeLiteral_cons_of_escaped he, spaced_cons (by decide), spaced_cons hc, spaced_cons hc,
        escapeLiteral_cons_of_escaped he, ih]
    · rw [escapeLiteral_cons_of_plain he, spaced, spaced, ih, ih]
      cases isBlank c
      · exact (escapeLiteral_cons_of_plain he _).symm
      · cases inRun <;> rfl

private theorem head?_escapeLiteral (t : Text) :
    ((escapeLiteral t).head?.map isPunctuation).getD false = (t.head?.map isPunctuation).getD false := by
  cases t with
  | nil => rfl
  | cons c t =>
    by_cases he : isEscaped c = true
    · rw [escapeLiteral_cons_of_escaped he, List.head?_cons, List.head?_cons, Option.map_some, Option.map_some,
        (escaped_facts he).2.2]
      rfl
    · rw [escapeLiteral_cons_of_plain he, List.head?_cons, List.head?_cons]

theorem tighten_escapeLiteral (behind : Bool) (t : Text) :
    tighten.go behind (escapeLiteral t) = escapeLiteral (tighten.go behind t) := by
  induction t generalizing behind with
  | nil => rfl
  | cons c t ih =>
    by_cases he : isEscaped c = true
    · obtain ⟨-, hc, hp⟩ := escaped_facts he
      have hslash : isPunctuation '\\' = false := by decide
      rw [escapeLiteral_cons_of_escaped he, tighten_cons (by decide), tighten_cons hc, tighten_cons hc, hp, ih,
        escapeLiteral_cons_of_escaped he]
    · rw [escapeLiteral_cons_of_plain he, tighten.go, tighten.go, head?_escapeLiteral, ih, ih]
      split
      · rfl
      · exact (escapeLiteral_cons_of_plain he _).symm

theorem tighten_literal (inRun behind : Bool) (t r : Text) :
    tighten.go behind (spaced inRun (literal t ++ r)) = literal (loosened t) ++ tighten (spaced false r) := by
  have hquote : literal t ++ r = '\'' :: (escapeLiteral t ++ '\'' :: r) := by simp [literal]
  rw [hquote, spaced_cons (by decide), spaced_append_cons (by decide), tighten_cons (by decide),
    tighten_append_cons (by decide) (by decide), spaced_escapeLiteral]
  have hinner : tighten.go (isPunctuation '\'') (escapeLiteral (spaced false t)) = escapeLiteral (loosened t) :=
    tighten_escapeLiteral false _
  rw [hinner]
  simp [literal, tighten]

/-! ## Unions -/

def textLiterals (ts : List Text) : List Value := ts.map fun t => .scalar (.text t)

private theorem renderLiterals_textLiterals (ts : List Text) :
    TypeExpr.renderLiterals (textLiterals ts) = join " | " (ts.map literal) := by
  rw [TypeExpr.renderLiterals, textLiterals, List.map_map]
  rfl

private theorem tighten_operator (r : Text) :
    tighten (spaced false (" | ".toList ++ r)) = '|' :: tighten.go true (spaced true r) := by
  have hspace : isBlank ' ' = true := by decide
  have hbar : isBlank '|' = false ∧ isPunctuation '|' = true := by decide
  simp [tighten, tighten.go, spaced, hspace, hbar]

private theorem tighten_join (inRun behind : Bool) (ts : List Text) :
    tighten.go behind (spaced inRun (join " | " (ts.map literal))) = join "|" ((ts.map loosened).map literal) := by
  induction ts generalizing inRun behind with
  | nil => rfl
  | cons t ts ih =>
    cases ts with
    | nil => simpa [tighten, tighten.go, spaced] using tighten_literal inRun behind t []
    | cons u ts =>
      rw [List.map_cons, List.map_cons, join_cons_cons, ← List.map_cons (f := literal), List.append_assoc,
        tighten_literal, tighten_operator, ih]
      simp

private theorem join_literals_ends (sep : Text) {ts : List Text} (h : ts ≠ []) :
    ∃ u, join sep (ts.map literal) = u ++ ['\''] := by
  induction ts with
  | nil => exact absurd rfl h
  | cons t ts ih =>
    cases ts with
    | nil => exact ⟨'\'' :: escapeLiteral t, by simp [literal]⟩
    | cons u ts =>
      obtain ⟨v, hv⟩ := ih (List.cons_ne_nil _ _)
      refine ⟨literal t ++ sep ++ v, ?_⟩
      rw [List.map_cons, List.map_cons, join_cons_cons, ← List.map_cons (f := literal), hv]
      simp

theorem getLast?_renderLiterals {ts : List Text} (h : ts ≠ []) :
    ∀ c ∈ (TypeExpr.renderLiterals (textLiterals ts)).getLast?, isBlank c = false := by
  obtain ⟨u, hu⟩ := join_literals_ends " | " h
  rw [renderLiterals_textLiterals, hu, List.getLast?_concat]
  simp only [Option.mem_some_iff, forall_eq']
  decide

theorem normalizeType_renderLiterals {ts : List Text} (h : ts ≠ []) :
    normalizeType (TypeExpr.renderLiterals (textLiterals ts)) = join "|" ((ts.map loosened).map literal) := by
  have hmap : ts.map loosened ≠ [] := mt List.map_eq_nil_iff.1 h
  obtain ⟨u, hu⟩ := join_literals_ends "|" hmap
  rw [normalizeType, ← spaced_true (getLast?_renderLiterals h), renderLiterals_textLiterals, tighten, tighten_join, hu,
    dropEndWhile_concat, if_neg (by decide)]

/-! ## Distinct unions -/

private theorem escapeLiteral_append_inj {t u r s : Text}
    (h : escapeLiteral t ++ '\'' :: r = escapeLiteral u ++ '\'' :: s) : t = u ∧ r = s := by
  induction t generalizing u with
  | nil =>
    cases u with
    | nil => exact ⟨rfl, (List.cons_eq_cons.1 h).2⟩
    | cons d u => exact absurd h (quote_ne_escapeLiteral_cons d u r _)
  | cons c t ih =>
    cases u with
    | nil => exact absurd h.symm (quote_ne_escapeLiteral_cons c t s _)
    | cons d u =>
      have hslash : isEscaped '\\' = true := by decide
      by_cases hc : isEscaped c = true <;> by_cases hd : isEscaped d = true
      · rw [escapeLiteral_cons_of_escaped hc, escapeLiteral_cons_of_escaped hd] at h
        simp only [List.cons_append, List.cons.injEq, true_and] at h
        obtain ⟨rfl, h⟩ := h
        obtain ⟨rfl, hr⟩ := ih h
        exact ⟨rfl, hr⟩
      · rw [escapeLiteral_cons_of_escaped hc, escapeLiteral_cons_of_plain hd] at h
        exact absurd ((List.cons_eq_cons.1 h).1 ▸ hslash) hd
      · rw [escapeLiteral_cons_of_plain hc, escapeLiteral_cons_of_escaped hd] at h
        exact absurd ((List.cons_eq_cons.1 h).1 ▸ hslash) hc
      · rw [escapeLiteral_cons_of_plain hc, escapeLiteral_cons_of_plain hd] at h
        simp only [List.cons_append, List.cons.injEq] at h
        obtain ⟨rfl, h⟩ := h
        obtain ⟨rfl, hr⟩ := ih h
        exact ⟨rfl, hr⟩

private theorem literal_append_inj {t u r s : Text} (h : literal t ++ r = literal u ++ s) : t = u ∧ r = s :=
  escapeLiteral_append_inj (by simpa [literal] using h)

private theorem join_literals_inj {ts us : List Text} (ht : ts ≠ []) (hu : us ≠ [])
    (h : join "|" (ts.map literal) = join "|" (us.map literal)) : ts = us := by
  induction ts generalizing us with
  | nil => exact absurd rfl ht
  | cons t ts ih =>
    obtain ⟨u, us, rfl⟩ := List.exists_cons_of_ne_nil hu
    have hcons (v w : Text) (vs : List Text) :
        join "|" ((v :: w :: vs).map literal) = literal v ++ '|' :: join "|" ((w :: vs).map literal) := by simp
    have hone (v : Text) : join "|" (([v] : List Text).map literal) = literal v ++ [] := by simp
    cases ts with
    | nil =>
      cases us with
      | nil =>
        rw [hone, hone] at h
        rw [(literal_append_inj h).1]
      | cons v us =>
        rw [hone, hcons] at h
        exact absurd (literal_append_inj h).2 (List.cons_ne_nil _ _).symm
    | cons w ts =>
      cases us with
      | nil =>
        rw [hcons, hone] at h
        exact absurd (literal_append_inj h).2 (List.cons_ne_nil _ _)
      | cons v us =>
        rw [hcons, hcons] at h
        obtain ⟨rfl, hrest⟩ := literal_append_inj h
        rw [ih (List.cons_ne_nil _ _) (List.cons_ne_nil _ _) (List.cons_eq_cons.1 hrest).2]

/-- Unions of texts have one normal form exactly if their texts are the same when loosened. -/
theorem normalizeType_renderLiterals_eq_iff {ts us : List Text} (ht : ts ≠ []) (hu : us ≠ []) :
    normalizeType (TypeExpr.renderLiterals (textLiterals ts)) =
        normalizeType (TypeExpr.renderLiterals (textLiterals us)) ↔
      ts.map loosened = us.map loosened := by
  rw [normalizeType_renderLiterals ht, normalizeType_renderLiterals hu]
  constructor
  · exact join_literals_inj (mt List.map_eq_nil_iff.1 ht) (mt List.map_eq_nil_iff.1 hu)
  · exact fun h => by rw [h]

end ClientGen.Source
