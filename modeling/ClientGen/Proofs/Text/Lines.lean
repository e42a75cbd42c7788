import ClientGen.Proofs.Text.Pieces
/-!
# Lines

A search that finds things at the beginning of lines alone can be followed line by line.
-/

namespace ClientGen.Text

/-- The text of lines, each with a line feed at its end. -/
def unlines (ls : List Text) : Text := ls.flatMap (· ++ ['\n'])

@[simp] theorem unlines_nil : unlines [] = [] := rfl

@[simp] theorem unlines_cons (l : Text) (ls : List Text) :
    unlines (l :: ls) = l ++ '\n' :: unlines ls := by simp [unlines]

theorem unlines_append (as bs : List Text) : unlines (as ++ bs) = unlines as ++ unlines bs := by
  simp [unlines]

theorem join_append_newline {ls : List Text} (h : ls ≠ []) (r : Text) :
    join ['\n'] ls ++ '\n' :: r = unlines ls ++ r := by
  induction ls with
  | nil => exact absurd rfl h
  | cons l ls ih =>
    cases ls with
    | nil => simp
    | cons l' ls =>
      rw [join_cons (by simp), List.append_assoc, ih (by simp)]
      simp

theorem join_concat_nil {ls : List Text} (h : ls ≠ []) : join ['\n'] (ls ++ [[]]) = unlines ls := by
  have hlast := join_append_newline h []
  rw [join_append h (List.cons_ne_nil _ _), join_singleton, List.append_nil]
  simpa using hlast

/-! ## The lines of a text -/

theorem splitOn_of_notMem {c : Char} {t : Text} (h : c ∉ t) : splitOn c t = [t] := by
  induction t with
  | nil => rfl
  | cons d t ih =>
    simp only [List.mem_cons, not_or] at h
    have hd : (d == c) = false := by simpa using Ne.symm h.1
    have ht : splitBy (· == c) t = [t] := ih h.2
    simp [splitOn, splitBy, hd, ht]

theorem splitOn_append_cons (c : Char) (a b : Text) :
    splitOn c (a ++ c :: b) = splitOn c a ++ splitOn c b := splitBy_append_cons (by simp) a b

theorem splitOn_append_cons_of_notMem {c : Char} {a : Text} (h : c ∉ a) (b : Text) :
    splitOn c (a ++ c :: b) = a :: splitOn c b := by
  rw [splitOn_append_cons, splitOn_of_notMem h, List.singleton_append]

theorem unlines_splitOn (t : Text) : unlines (splitOn '\n' t) = t ++ ['\n'] := by
  induction t with
  | nil => rfl
  | cons c t ih =>
    obtain ⟨piece, pieces, hp⟩ := List.exists_cons_of_ne_nil (splitBy_ne_nil (· == '\n') t)
    simp only [splitOn, hp] at ih
    by_cases hc : c = '\n'
    · subst hc
      simpa [splitOn, splitBy, hp] using ih
    · simpa [splitOn, splitBy, hp, hc] using ih

theorem notMem_of_mem_splitOn {c : Char} {t l : Text} (h : l ∈ splitOn c t) : c ∉ l := by
  intro hc
  simpa using sep_of_mem_splitBy h c hc

theorem join_splitOn (c : Char) (t : Text) : join [c] (splitOn c t) = t := by
  induction t with
  | nil => rfl
  | cons d t ih =>
    obtain ⟨piece, pieces, hp⟩ := List.exists_cons_of_ne_nil (splitBy_ne_nil (· == c) t)
    rw [splitOn, hp] at ih
    by_cases hd : d = c
    · subst hd
      have hsplit : splitOn d (d :: t) = [] :: piece :: pieces := by simp [splitOn, splitBy, hp]
      rw [hsplit, join_cons_cons, ih]
      rfl
    · have hsplit : splitOn c (d :: t) = (d :: piece) :: pieces := by simp [splitOn, splitBy, hp, hd]
      rw [hsplit, ← ih]
      cases pieces with
      | nil => rw [join_singleton, join_singleton]
      | cons q pieces => rw [join_cons_cons, join_cons_cons, List.cons_append, List.cons_append]

theorem splitOn_join {c : Char} {ps : List Text} (hne : ps ≠ []) (h : ∀ p ∈ ps, c ∉ p) :
    splitOn c (join [c] ps) = ps := by
  induction ps with
  | nil => exact absurd rfl hne
  | cons p ps ih =>
    cases ps with
    | nil => rw [join_singleton, splitOn_of_notMem (h p List.mem_cons_self)]
    | cons q ps =>
      rw [join_cons_cons, List.append_assoc, List.singleton_append,
        splitOn_append_cons_of_notMem (h p List.mem_cons_self),
        ih (List.cons_ne_nil q ps) fun t ht => h t (List.mem_cons_of_mem p ht)]

/-! ## Searches -/

variable {α : Type} {step : Char → Text → Option (α × Nat)}

/-- The step finds something only behind a line feed. -/
def IsLinewise (step : Char → Text → Option (α × Nat)) : Prop :=
  ∀ before t, before ≠ '\n' → step before t = none

private theorem step_of_mem_collect_go {found : α} {skip : Nat} {before : Char} {t : Text}
    (h : found ∈ collect.go step skip before t) : ∃ c s n, step c s = some (found, n) := by
  induction t generalizing skip before with
  | nil => cases h
  | cons c t ih =>
    cases skip with
    | succ skip => exact ih h
    | zero =>
      rw [collect.go] at h
      cases hs : step before (c :: t) with
      | none =>
        simp only [hs] at h
        exact ih h
      | some r =>
        obtain ⟨a, n⟩ := r
        simp only [hs] at h
        rcases List.mem_cons.1 h with rfl | h
        · exact ⟨before, c :: t, n, hs⟩
        · exact ih h

theorem step_of_mem_collect {found : α} {t : Text} (h : found ∈ collect step t) :
    ∃ c s n, step c s = some (found, n) :=
  step_of_mem_collect_go h

private theorem collect_go_inside (hs : IsLinewise step) {before : Char} (hb : before ≠ '\n')
    {l : Text} (hl : '\n' ∉ l) (r : Text) :
    collect.go step 0 before (l ++ '\n' :: r) = collect step r := by
  induction l generalizing before with
  | nil => simp only [List.nil_append, collect.go, hs before _ hb, collect]
  | cons c l ih =>
    simp only [List.mem_cons, not_or] at hl
    simp only [List.cons_append, collect.go, hs before _ hb]
    exact ih (Ne.symm hl.1) hl.2

theorem collect_line (hs : IsLinewise step) {l r : Text} (hl : '\n' ∉ l)
    (h : step '\n' (l ++ '\n' :: r) = none) :
    collect step (l ++ '\n' :: r) = collect step r := by
  cases l with
  | nil => simp_all [collect, collect.go]
  | cons c l =>
    simp only [List.mem_cons, not_or] at hl
    simp only [List.cons_append] at h
    simp only [collect, List.cons_append, collect.go, h]
    exact collect_go_inside hs (Ne.symm hl.1) hl.2 r

private theorem collect_go_skip (a : Text) (before last : Char) (r : Text) :
    collect.go step (a.length + 1) before (a ++ last :: r) = collect.go step 0 last r := by
  induction a generalizing before with
  | nil => rfl
  | cons c a ih => simpa only [List.cons_append, List.length_cons, collect.go] using ih c

/-- What is found at the beginning of a line is listed, and the search goes on behind the line in which
it ends. -/
theorem collect_found (hs : IsLinewise step) {a l r : Text} {last : Char} {found : α}
    (hlast : last ≠ '\n') (hl : '\n' ∉ l)
    (h : step '\n' (a ++ last :: (l ++ '\n' :: r)) = some (found, a.length + 1)) :
    collect step (a ++ last :: (l ++ '\n' :: r)) = found :: collect step r := by
  cases a with
  | nil =>
    simp only [List.nil_append] at h
    simp only [collect, List.nil_append, collect.go, h, List.length_nil, Nat.zero_add, Nat.sub_self]
    rw [collect_go_inside hs hlast hl, collect]
  | cons c a =>
    simp only [List.cons_append] at h
    simp only [collect, List.cons_append, collect.go, h, List.length_cons, Nat.add_sub_cancel]
    rw [collect_go_skip, collect_go_inside hs hlast hl, collect]

theorem collect_unlines (hs : IsLinewise step) {ls : List Text} (hl : ∀ l ∈ ls, '\n' ∉ l)
    (h : ∀ l ∈ ls, ∀ r, step '\n' (l ++ '\n' :: r) = none) (r : Text) :
    collect step (unlines ls ++ r) = collect step r := by
  induction ls with
  | nil => rfl
  | cons l ls ih =>
    rw [unlines_cons, List.append_assoc, List.cons_append,
      collect_line hs (hl l List.mem_cons_self) (h l List.mem_cons_self _)]
    exact ih (fun l hm => hl l (List.mem_cons_of_mem _ hm))
      fun l hm => h l (List.mem_cons_of_mem _ hm)

theorem collect_text (hs : IsLinewise step) {t : Text}
    (h : ∀ l ∈ splitOn '\n' t, ∀ r, step '\n' (l ++ '\n' :: r) = none) (r : Text) :
    collect step (t ++ '\n' :: r) = collect step r := by
  have ht : t ++ '\n' :: r = unlines (splitOn '\n' t) ++ r := by simp [unlines_splitOn]
  rw [ht, collect_unlines hs (fun l hl => notMem_of_mem_splitOn hl) h]

end ClientGen.Text
