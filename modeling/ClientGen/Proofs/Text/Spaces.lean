import ClientGen.Proofs.Text.Pieces
/-!
# Single spaces

The words of a text with single spaces between them, character by character: each run of blanks becomes one space.
-/

namespace ClientGen.Text

/-- The text with one space for each run of blanks, where a run goes on at its beginning when `inRun` is set. -/
def spaced (inRun : Bool) : Text → Text
  | [] => []
  | c :: cs =>
    if isBlank c then (if inRun then [] else [' ']) ++ spaced true cs else c :: spaced false cs

theorem spaced_cons {c : Char} (hc : isBlank c = false) (inRun : Bool) (t : Text) :
    spaced inRun (c :: t) = c :: spaced false t := by
  simp [spaced, hc]

/-- What stands on the two sides of a character that is not blank is spaced apart. -/
theorem spaced_append_cons {c : Char} (hc : isBlank c = false) (inRun : Bool) (a b : Text) :
    spaced inRun (a ++ c :: b) = spaced inRun a ++ c :: spaced false b := by
  induction a generalizing inRun with
  | nil => exact spaced_cons hc inRun b
  | cons d a ih =>
    by_cases hd : isBlank d = true
    · simp [spaced, hd, ih]
    · simp [spaced, hd, ih]

theorem spaced_of_noBlank {t : Text} (h : ∀ c ∈ t, isBlank c = false) (inRun : Bool) : spaced inRun t = t := by
  induction t generalizing inRun with
  | nil => rfl
  | cons c t ih =>
    rw [List.forall_mem_cons] at h
    rw [spaced_cons h.1, ih h.2]

theorem spaced_spaced (inRun : Bool) (t : Text) : spaced inRun (spaced inRun t) = spaced inRun t := by
  induction t generalizing inRun with
  | nil => rfl
  | cons c t ih =>
    by_cases hc : isBlank c = true
    · have hspace : isBlank ' ' = true := by decide
      cases inRun <;> simp [spaced, hc, hspace, ih]
    · simp [spaced, hc, ih]

private theorem words_ne_nil {t : Text} {c : Char} (hc : isBlank c = false) (h : c ∈ t) : words t ≠ [] := by
  rcases mem_splitBy isBlank h with hb | ⟨w, hw, hin⟩
  · rw [hc] at hb
    cases hb
  · have hword : w ∈ words t := List.mem_filter.2 ⟨hw, by simpa using List.ne_nil_of_mem hin⟩
    exact List.ne_nil_of_mem hword

private theorem spaced_eq {t : Text} (h : ∀ c ∈ t.getLast?, isBlank c = false) :
    spaced true t = collapse t ∧
      ∀ piece pieces, splitBy isBlank t = piece :: pieces →
        spaced false t = join [' '] (piece :: pieces.filter (· ≠ [])) := by
  -- behind a blank the first piece is left out if it is empty; inside a word it goes on and stays
  induction t with
  | nil =>
    refine ⟨rfl, fun piece pieces hs => ?_⟩
    obtain ⟨rfl, rfl⟩ := List.cons_eq_cons.1 hs
    rfl
  | cons c t ih =>
    have htail : ∀ d ∈ t.getLast?, isBlank d = false := by
      cases t with
      | nil => simp
      | cons d t => simpa [List.getLast?_cons_cons] using h
    obtain ⟨hcollapse, hspaced⟩ := ih htail
    obtain ⟨piece, pieces, hs⟩ := List.exists_cons_of_ne_nil (splitBy_ne_nil isBlank t)
    by_cases hc : isBlank c = true
    · have hsplit : splitBy isBlank (c :: t) = [] :: splitBy isBlank t := by simp [splitBy, hc]
      have hwords : words t ≠ [] := by
        cases hlast : t.getLast? with
        | none =>
          rw [List.getLast?_eq_none_iff] at hlast
          subst hlast
          simp [hc] at h
        | some d => exact words_ne_nil (htail d hlast) (List.mem_of_getLast? hlast)
      refine ⟨?_, fun first others hfirst => ?_⟩
      · simpa [spaced, hc, collapse, words, hsplit] using hcollapse
      · obtain ⟨rfl, rfl⟩ := List.cons_eq_cons.1 (hsplit.symm.trans hfirst)
        rw [← words, join_cons hwords, ← collapse, ← hcollapse]
        simp [spaced, hc]
    · have hsplit : splitBy isBlank (c :: t) = (c :: piece) :: pieces := by simp [splitBy, hc, hs]
      have hjoin : join [' '] ((c :: piece) :: pieces.filter (· ≠ [])) = c :: spaced false t := by
        rw [hspaced piece pieces hs]
        cases pieces.filter (· ≠ []) <;> simp
      refine ⟨?_, fun first others hfirst => ?_⟩
      · rw [collapse, words, hsplit, List.filter_cons_of_pos (by simp), hjoin]
        simp [spaced, hc]
      · obtain ⟨rfl, rfl⟩ := List.cons_eq_cons.1 (hsplit.symm.trans hfirst)
        rw [hjoin]
        simp [spaced, hc]

/-- The words of a text that ends in one are spaced by what stands between them. -/
theorem spaced_true {t : Text} (h : ∀ c ∈ t.getLast?, isBlank c = false) : spaced true t = collapse t :=
  (spaced_eq h).1

theorem collapse_append_singleton {c : Char} (hc : isBlank c = false) (t : Text) :
    collapse (t ++ [c]) = spaced true t ++ [c] := by
  rw [← spaced_true (by simpa using hc), spaced_append_cons hc]
  rfl

theorem collapse_collapse {t : Text} (h : ∀ c ∈ t.getLast?, isBlank c = false) :
    collapse (collapse t) = collapse t := by
  rcases List.eq_nil_or_concat t with rfl | ⟨u, c, rfl⟩
  · rfl
  · have hc : isBlank c = false := by simpa using h
    rw [List.concat_eq_append, collapse_append_singleton hc, collapse_append_singleton hc, spaced_spaced]

theorem collapse_of_noBlank {t : Text} (h : ∀ c ∈ t, isBlank c = false) : collapse t = t := by
  rw [← spaced_true fun c hc => h c (List.mem_of_getLast? hc), spaced_of_noBlank h]

end ClientGen.Text
