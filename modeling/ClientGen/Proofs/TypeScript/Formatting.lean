import ClientGen.Proofs.Text.Spaces
import ClientGen.TypeScript.TypeText
import Mathlib.Logic.Relation
/-!
# The formatting of type texts

Two type texts have one normal form exactly if changes of formatting lead from one to the other: blanks become other
blanks, they come and go at the ends and beside punctuation, and separators come and go at the end.
-/

namespace ClientGen.Source

open Text

theorem isBlank_of_isPunctuation {c : Char} (h : isPunctuation c = true) : isBlank c = false := by
  have hall : ∀ d ∈ "<>[]()\x7b\x7d|&,;:".toList, isBlank d = false := by decide
  exact hall c (of_decide_eq_true h)

/-! ## Changes of formatting -/

/-- Whether no blank is needed between two texts: one of them is empty or has punctuation there. -/
def IsLoose (a b : Text) : Prop :=
  (∀ c ∈ a.getLast?, isPunctuation c = true) ∨ ∀ c ∈ b.head?, isPunctuation c = true

/-- A change in the formatting of a type text. -/
inductive Reformats : Text → Text → Prop
  | run (a b : Text) {v w : Text} (hv : ∀ c ∈ v, isBlank c = true) (hw : ∀ c ∈ w, isBlank c = true) (hv' : v ≠ [])
      (hw' : w ≠ []) : Reformats (a ++ v ++ b) (a ++ w ++ b)
  /-- Blanks change, come or go at an end or beside punctuation. -/
  | loose {a b v w : Text} (hv : ∀ c ∈ v, isBlank c = true) (hw : ∀ c ∈ w, isBlank c = true) (h : IsLoose a b) :
      Reformats (a ++ v ++ b) (a ++ w ++ b)
  | separator (a : Text) {c : Char} (hc : c = ';' ∨ c = ',') : Reformats (a ++ [c]) a

/-! ## One pass -/

/-- The text without blanks, but with one space for each run of them between two characters that are no punctuation.
At the beginning `loose` says that no space is needed there, and `gap` that blanks stood there. -/
def compact (loose gap : Bool) : Text → Text
  | [] => []
  | c :: cs =>
    if isBlank c then compact loose true cs
    else (if gap && !loose && !isPunctuation c then [' '] else []) ++ c :: compact (isPunctuation c) false cs

theorem compact_of_isBlank {c : Char} (hc : isBlank c = true) (loose gap : Bool) (t : Text) :
    compact loose gap (c :: t) = compact loose true t := by
  simp [compact, hc]

theorem compact_loose (gap gap' : Bool) (t : Text) : compact true gap t = compact true gap' t := by
  induction t generalizing gap gap' with
  | nil => rfl
  | cons c t ih =>
    by_cases hc : isBlank c = true
    · rw [compact_of_isBlank hc, compact_of_isBlank hc]
    · simp [compact, hc]

theorem compact_blanks {v : Text} (hv : ∀ c ∈ v, isBlank c = true) (hne : v ≠ []) (loose gap : Bool) (t : Text) :
    compact loose gap (v ++ t) = compact loose true t := by
  induction v generalizing gap with
  | nil => exact absurd rfl hne
  | cons c v ih =>
    rw [List.forall_mem_cons] at hv
    rw [List.cons_append, compact_of_isBlank hv.1]
    cases v with
    | nil => rfl
    | cons d v => exact ih hv.2 (List.cons_ne_nil d v) true

theorem compact_append_congr {b b' : Text} (h : ∀ loose gap, compact loose gap b = compact loose gap b')
    (loose gap : Bool) (a : Text) : compact loose gap (a ++ b) = compact loose gap (a ++ b') := by
  induction a generalizing loose gap with
  | nil => exact h loose gap
  | cons c a ih =>
    rw [List.cons_append, List.cons_append, compact, compact, ih, ih]

/-! ## The normal form in one pass -/

/-- Behind blanks a space is written unless the text goes on with punctuation or none is needed before it. -/
private theorem compact_gap {t : Text} (hne : t ≠ []) (hend : ∀ c ∈ t.getLast?, isBlank c = false) (loose : Bool) :
    compact loose true t =
      if loose || ((spaced true t).head?.map isPunctuation).getD false then compact true true t
      else ' ' :: compact true true t := by
  induction t with
  | nil => exact absurd rfl hne
  | cons c t ih =>
    by_cases hc : isBlank c = true
    · have ht : t ≠ [] := by
        rintro rfl
        simp [hc] at hend
      obtain ⟨d, u, rfl⟩ := List.exists_cons_of_ne_nil ht
      have hspaced : spaced true (c :: d :: u) = spaced true (d :: u) := by simp [spaced, hc]
      rw [compact_of_isBlank hc, compact_of_isBlank hc, hspaced]
      exact ih ht (by simpa [List.getLast?_cons_cons] using hend)
    · cases loose <;> cases hp : isPunctuation c <;> simp [compact, spaced, hc, hp]

/-- The two passes over a text that does not end in a blank, from inside a run of blanks and from outside one. -/
private theorem tighten_spaced {t : Text} (hend : ∀ c ∈ t.getLast?, isBlank c = false) :
    (∀ behind gap, tighten.go behind (spaced true t) = compact true gap t) ∧
      ∀ behind, tighten.go behind (spaced false t) = compact behind false t := by
  induction t with
  | nil => exact ⟨fun _ _ => rfl, fun _ => rfl⟩
  | cons c t ih =>
    have htail : ∀ d ∈ t.getLast?, isBlank d = false := by
      cases t with
      | nil => simp
      | cons d t => simpa [List.getLast?_cons_cons] using hend
    obtain ⟨hinside, houtside⟩ := ih htail
    by_cases hc : isBlank c = true
    · have ht : t ≠ [] := by
        rintro rfl
        simp [hc] at hend
      refine ⟨fun behind gap => ?_, fun behind => ?_⟩
      · rw [compact_of_isBlank hc, ← hinside behind true]
        simp [spaced, hc]
      · rw [compact_of_isBlank hc, compact_gap ht htail]
        simp [spaced, hc, tighten.go, hinside _ true]
    · have hspace : c ≠ ' ' := by
        rintro rfl
        exact hc (by decide)
      refine ⟨fun behind gap => ?_, fun behind => ?_⟩
      · simp [spaced, hc, tighten.go, hspace, houtside, compact]
      · simp [spaced, hc, tighten.go, hspace, houtside, compact]

theorem compact_append_blank {c : Char} (hc : isBlank c = true) (loose gap : Bool) (t : Text) :
    compact loose gap (t ++ [c]) = compact loose gap t := by
  have hnone : ∀ loose gap, compact loose gap [c] = compact loose gap [] := fun _ _ => compact_of_isBlank hc _ _ []
  simpa using compact_append_congr hnone loose gap t

theorem tighten_collapse (t : Text) : tighten (collapse t) = compact true false t := by
  induction t using List.reverseRecOn with
  | nil => rfl
  | append_singleton t c ih =>
    by_cases hc : isBlank c = true
    · rw [collapse_append_of_blank (by simpa using hc), compact_append_blank hc, ih]
    · have hend : ∀ d ∈ (t ++ [c]).getLast?, isBlank d = false := by simpa using hc
      rw [← spaced_true hend]
      exact (tighten_spaced hend).1 false false

/-! ## Changes keep the normal form -/

private theorem compact_before {v b : Text} (hv : ∀ c ∈ v, isBlank c = true)
    (hb : ∀ c ∈ b.head?, isPunctuation c = true) (loose gap : Bool) : compact loose gap (v ++ b) = compact loose gap b := by
  have hany : ∀ gap gap', compact loose gap b = compact loose gap' b := by
    intro gap gap'
    cases b with
    | nil => rfl
    | cons c b =>
      have hp : isPunctuation c = true := by simpa using hb
      have hc : isBlank c = false := isBlank_of_isPunctuation hp
      simp [compact, hc, hp]
  cases v with
  | nil => rfl
  | cons c v => rw [compact_blanks hv (List.cons_ne_nil c v), hany true gap]

private theorem compact_behind {a v : Text} (ha : ∀ c ∈ a.getLast?, isPunctuation c = true)
    (hv : ∀ c ∈ v, isBlank c = true) (b : Text) : compact true false (a ++ (v ++ b)) = compact true false (a ++ b) := by
  have hskip (gap : Bool) : compact true gap (v ++ b) = compact true gap b := by
    cases v with
    | nil => rfl
    | cons c v => rw [compact_blanks hv (List.cons_ne_nil c v), compact_loose true gap]
  rcases List.eq_nil_or_concat a with rfl | ⟨u, c, rfl⟩
  · exact hskip false
  · have hp : isPunctuation c = true := by simpa using ha
    have hc : isBlank c = false := isBlank_of_isPunctuation hp
    have hcons (loose gap : Bool) : compact loose gap (c :: (v ++ b)) = compact loose gap (c :: b) := by
      simp [compact, hc, hp, hskip]
    simpa using compact_append_congr hcons true false u

private theorem compact_append_separator {c : Char} (hc : c = ';' ∨ c = ',') (loose gap : Bool) (a : Text) :
    compact loose gap (a ++ [c]) = compact loose gap a ++ [c] := by
  have hfacts : isBlank c = false ∧ isPunctuation c = true := by rcases hc with rfl | rfl <;> decide
  induction a generalizing loose gap with
  | nil => simp [compact, hfacts]
  | cons d a ih =>
    rw [List.cons_append, compact, compact, ih, ih]
    split <;> simp

theorem normalizeType_eq_of_reformats {t u : Text} (h : Reformats t u) : normalizeType t = normalizeType u := by
  rw [normalizeType, normalizeType, tighten_collapse, tighten_collapse]
  cases h with
  | run a b hv hw hv' hw' =>
    have hrun (loose gap : Bool) := (compact_blanks hv hv' loose gap b).trans (compact_blanks hw hw' loose gap b).symm
    rw [List.append_assoc, List.append_assoc, compact_append_congr hrun]
  | @loose a b v w hv hw h =>
    rw [List.append_assoc, List.append_assoc]
    rcases h with ha | hb
    · rw [compact_behind ha hv, compact_behind ha hw]
    · have hsame (loose gap : Bool) := (compact_before hv hb loose gap).trans (compact_before hw hb loose gap).symm
      rw [compact_append_congr hsame]
  | separator _ hc => rw [compact_append_separator hc, dropEndWhile_concat, if_pos (by simpa using hc)]

/-! ## Changes lead to the normal form -/

private theorem isBlank_of_mem_space : ∀ c ∈ [' '], isBlank c = true := by decide

/-- What follows a text that needs no more changes gets its normal form; a single space stands for the blanks that
`gap` tells of. -/
private theorem eqvGen_compact (t a : Text) (loose : Bool)
    (h : loose = true → ∀ c ∈ a.getLast?, isPunctuation c = true) :
    Relation.EqvGen Reformats (a ++ t) (a ++ compact loose false t) ∧
      Relation.EqvGen Reformats (a ++ [' '] ++ t) (a ++ compact loose true t) := by
  have hnone : ∀ c ∈ ([] : Text), isBlank c = true := by simp
  induction t generalizing a loose with
  | nil =>
    have hend : Reformats (a ++ [' '] ++ []) (a ++ [] ++ []) := .loose isBlank_of_mem_space hnone (.inr (by simp))
    exact ⟨.refl _, .rel _ _ (by simpa [compact] using hend)⟩
  | cons c t ih =>
    by_cases hc : isBlank c = true
    · -- The blank joins those before it, or becomes the single space itself.
      have hone : ∀ d ∈ [c], isBlank d = true := by simpa using hc
      have htwo : ∀ d ∈ [' ', c], isBlank d = true := by simpa using ⟨isBlank_of_mem_space ' ' (by simp), hc⟩
      have hfirst : Reformats (a ++ [c] ++ t) (a ++ [' '] ++ t) :=
        .run a t hone isBlank_of_mem_space (by simp) (by simp)
      have hmore : Reformats (a ++ [' ', c] ++ t) (a ++ [' '] ++ t) :=
        .run a t htwo isBlank_of_mem_space (by simp) (by simp)
      rw [compact_of_isBlank hc, compact_of_isBlank hc]
      refine ⟨.trans _ _ _ (.rel _ _ ?_) (ih a loose h).2, .trans _ _ _ (.rel _ _ ?_) (ih a loose h).2⟩
      · simpa using hfirst
      · simpa using hmore
    · have hnext (b : Text) :
          Relation.EqvGen Reformats (b ++ c :: t) (b ++ c :: compact (isPunctuation c) false t) := by
        simpa using (ih (b ++ [c]) (isPunctuation c) (by simp)).1
      refine ⟨by simpa [compact, hc] using hnext a, ?_⟩
      by_cases hkeep : loose = true ∨ isPunctuation c = true
      · have hloose : IsLoose a (c :: t) := hkeep.imp h fun hp => by simpa using hp
        have hdrop : Reformats (a ++ [' '] ++ c :: t) (a ++ [] ++ c :: t) := .loose isBlank_of_mem_space hnone hloose
        have hcompact : compact loose true (c :: t) = c :: compact (isPunctuation c) false t := by
          rcases hkeep with hl | hp
          · simp [compact, hc, hl]
          · simp [compact, hc, hp]
        rw [hcompact]
        exact .trans _ _ _ (.rel _ _ hdrop) (by simpa using hnext a)
      · rw [not_or] at hkeep
        have hcompact : compact loose true (c :: t) = ' ' :: c :: compact (isPunctuation c) false t := by
          simp [compact, hc, hkeep]
        rw [hcompact]
        simpa using hnext (a ++ [' '])

private theorem eqvGen_dropEndWhile (t : Text) :
    Relation.EqvGen Reformats t (dropEndWhile (fun c => c = ';' || c = ',') t) := by
  induction t using List.reverseRecOn with
  | nil => exact .refl _
  | append_singleton t c ih =>
    rw [dropEndWhile_concat]
    split
    · next hc => exact .trans _ _ _ (.rel _ _ (.separator t (by simpa using hc))) ih
    · exact .refl _

theorem eqvGen_normalizeType (t : Text) : Relation.EqvGen Reformats t (normalizeType t) := by
  have hcompact : Relation.EqvGen Reformats t (compact true false t) := (eqvGen_compact t [] true (by simp)).1
  rw [normalizeType, tighten_collapse]
  exact hcompact.trans _ _ _ (eqvGen_dropEndWhile _)

/-- The normal form of a type text is its own normal form, no change of formatting makes a difference to it, and texts
with one normal form differ in their formatting alone. -/
theorem normalizeType_canonical :
    (∀ t, normalizeType (normalizeType t) = normalizeType t) ∧
      (∀ t u, Reformats t u → normalizeType t = normalizeType u) ∧
      ∀ t u, normalizeType t = normalizeType u → Relation.EqvGen Reformats t u := by
  have hsame {t u : Text} (h : Relation.EqvGen Reformats t u) : normalizeType t = normalizeType u := by
    induction h with
    | rel _ _ h => exact normalizeType_eq_of_reformats h
    | refl => rfl
    | symm _ _ _ ih => exact ih.symm
    | trans _ _ _ _ _ ih ih' => exact ih.trans ih'
  refine ⟨fun t => (hsame (eqvGen_normalizeType t)).symm, fun t u => normalizeType_eq_of_reformats, fun t u h => ?_⟩
  have hback : Relation.EqvGen Reformats (normalizeType t) u := h ▸ (eqvGen_normalizeType u).symm
  exact (eqvGen_normalizeType t).trans _ _ _ hback

/-- A line end in a union, a space that is not needed, and two writings of one type that differ in several places. -/
theorem normalizeType_canonical_of_pet :
    Reformats "Pet  |\n  null" "Pet |\n  null" ∧ Reformats "Pet |\n  null" "Pet|\n  null" ∧
      normalizeType "Pet  |\n  null" = normalizeType "Pet|\n  null" ∧
      normalizeType " Set <Pet>;" = "Set<Pet>".toList ∧ normalizeType "Set<\tPet>" = "Set<Pet>".toList ∧
      Relation.EqvGen Reformats " Set <Pet>;" "Set<\tPet>" := by
  obtain ⟨-, hkeeps, hleads⟩ := normalizeType_canonical
  have hrun : Reformats "Pet  |\n  null" "Pet |\n  null" :=
    .run "Pet" "|\n  null" (v := "  ") (w := " ") (by decide) (by decide) (by decide) (by decide)
  have hbar : IsLoose "Pet" "|\n  null" := .inr (by simp [isPunctuation])
  have hloose : Reformats "Pet |\n  null" "Pet|\n  null" := .loose (v := " ") (w := "") (by decide) (by decide) hbar
  have hspaces : normalizeType " Set <Pet>;" = "Set<Pet>".toList := by decide
  have htab : normalizeType "Set<\tPet>" = "Set<Pet>".toList := by decide
  exact ⟨hrun, hloose, (hkeeps _ _ hrun).trans (hkeeps _ _ hloose), hspaces, htab,
    hleads _ _ (hspaces.trans htab.symm)⟩

end ClientGen.Source
