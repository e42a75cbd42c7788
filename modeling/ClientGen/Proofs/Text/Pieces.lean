import ClientGen.Proofs.Text.Occurrence
import ClientGen.Text.Blank
import Mathlib.Data.List.TakeWhile
/-!
# Pieces of text

What joining, splitting and substituting do to the characters and the parts of a text.
-/

namespace ClientGen.Text

/-! ## Joining -/

@[simp] theorem join_nil (sep : Text) : join sep [] = [] := rfl

@[simp] theorem join_singleton (sep a : Text) : join sep [a] = a := List.intercalate_singleton

theorem join_cons {sep a : Text} {ps : List Text} (h : ps ≠ []) :
    join sep (a :: ps) = a ++ sep ++ join sep ps := List.intercalate_cons_of_ne_nil h

@[simp] theorem join_cons_cons (sep a b : Text) (ps : List Text) :
    join sep (a :: b :: ps) = a ++ sep ++ join sep (b :: ps) := join_cons (by simp)

theorem join_append {sep : Text} {as bs : List Text} (ha : as ≠ []) (hb : bs ≠ []) :
    join sep (as ++ bs) = join sep as ++ sep ++ join sep bs := by
  induction as with
  | nil => exact absurd rfl ha
  | cons a as ih =>
    cases as with
    | nil => rw [List.singleton_append, join_cons hb, join_singleton]
    | cons a' as =>
      rw [List.cons_append, join_cons (by simp), ih (by simp), join_cons_cons]
      simp only [List.append_assoc]

theorem head?_join {sep p : Text} (hp : p ≠ []) (ps : List Text) : (join sep (p :: ps)).head? = p.head? := by
  obtain ⟨c, cs, rfl⟩ := List.exists_cons_of_ne_nil hp
  cases ps with
  | nil => rw [join_singleton]
  | cons q ps =>
    rw [join_cons_cons]
    rfl

theorem mem_join {sep : Text} {ps : List Text} {c : Char} (h : c ∈ join sep ps) :
    c ∈ sep ∨ ∃ p ∈ ps, c ∈ p := by
  induction ps with
  | nil => simp at h
  | cons a ps ih =>
    cases ps with
    | nil => exact .inr ⟨a, by simp, by simpa using h⟩
    | cons b ps =>
      rw [join_cons (by simp), List.mem_append, List.mem_append] at h
      rcases h with (h | h) | h
      · exact .inr ⟨a, by simp, h⟩
      · exact .inl h
      · rcases ih h with h | ⟨p, hp, hc⟩
        · exact .inl h
        · exact .inr ⟨p, List.mem_cons_of_mem _ hp, hc⟩

theorem notMem_join {sep : Text} {ps : List Text} {c : Char} (hs : c ∉ sep) (hp : ∀ p ∈ ps, c ∉ p) :
    c ∉ join sep ps := by
  intro hc
  rcases mem_join hc with hc | ⟨p, hm, hc⟩
  · exact hs hc
  · exact hp p hm hc

theorem infix_of_infix_join {p : Text} {c : Char} {ps : List Text} (hp : p ≠ []) (hc : c ∉ p)
    (h : p <:+: join [c] ps) : ∃ w ∈ ps, p <:+: w := by
  induction ps with
  | nil => exact absurd (List.infix_nil.1 h) hp
  | cons a ps ih =>
    cases ps with
    | nil => exact ⟨a, by simp, by simpa using h⟩
    | cons b ps =>
      rw [join_cons (by simp), List.append_assoc, List.singleton_append,
        infix_append_cons_iff hc] at h
      rcases h with h | h
      · exact ⟨a, by simp, h⟩
      · obtain ⟨w, hw, hpw⟩ := ih h
        exact ⟨w, List.mem_cons_of_mem _ hw, hpw⟩

theorem infix_join {sep w : Text} {ps : List Text} (h : w ∈ ps) : w <:+: join sep ps := by
  induction ps with
  | nil => cases h
  | cons a ps ih =>
    cases ps with
    | nil =>
      rw [List.mem_singleton.1 h, join_singleton]
    | cons b ps =>
      rw [join_cons (List.cons_ne_nil _ _)]
      rcases List.mem_cons.1 h with rfl | h
      · rw [List.append_assoc]
        exact (List.prefix_append _ _).isInfix
      · exact (ih h).trans (List.suffix_append _ _).isInfix

/-! ## Splitting -/

private theorem splitBy_parts (sep : Char → Bool) (t : Text) :
    ∃ piece pieces, splitBy sep t = piece :: pieces ∧ piece <+: t ∧ ∀ w ∈ pieces, w <:+: t := by
  induction t with
  | nil => exact ⟨[], [], rfl, by simp, by simp⟩
  | cons c t ih =>
    obtain ⟨piece, pieces, he, hpre, hin⟩ := ih
    by_cases hc : sep c = true
    · refine ⟨[], piece :: pieces, by simp [splitBy, hc, he], by simp, ?_⟩
      intro w hw
      rcases List.mem_cons.1 hw with rfl | hw
      · exact hpre.isInfix.trans (List.suffix_cons c t).isInfix
      · exact (hin w hw).trans (List.suffix_cons c t).isInfix
    · refine ⟨c :: piece, pieces, by simp [splitBy, hc, he], ?_, ?_⟩
      · exact (List.prefix_cons_inj c).2 hpre
      · exact fun w hw => (hin w hw).trans (List.suffix_cons c t).isInfix

theorem splitBy_ne_nil (sep : Char → Bool) (t : Text) : splitBy sep t ≠ [] := by
  obtain ⟨piece, pieces, he, -, -⟩ := splitBy_parts sep t
  simp [he]

theorem splitBy_append_cons {sep : Char → Bool} {c : Char} (hc : sep c = true) (a b : Text) :
    splitBy sep (a ++ c :: b) = splitBy sep a ++ splitBy sep b := by
  induction a with
  | nil => simp [splitBy, hc]
  | cons d a ih =>
    by_cases hd : sep d = true
    · simp [splitBy, hd, ih]
    · obtain ⟨piece, pieces, hp⟩ := List.exists_cons_of_ne_nil (splitBy_ne_nil sep a)
      simp [splitBy, hd, ih, hp]

theorem infix_of_mem_splitBy {sep : Char → Bool} {t w : Text} (h : w ∈ splitBy sep t) :
    w <:+: t := by
  obtain ⟨piece, pieces, he, hpre, hin⟩ := splitBy_parts sep t
  rw [he, List.mem_cons] at h
  rcases h with rfl | h
  · exact hpre.isInfix
  · exact hin w h

theorem sep_of_mem_splitBy {sep : Char → Bool} {t w : Text} (h : w ∈ splitBy sep t) :
    ∀ c ∈ w, sep c = false := by
  induction t generalizing w with
  | nil => simp_all [splitBy]
  | cons c t ih =>
    obtain ⟨piece, pieces, he, -, -⟩ := splitBy_parts sep t
    by_cases hc : sep c = true
    · simp only [splitBy, hc, if_true, List.mem_cons] at h
      rcases h with rfl | h
      · simp
      · exact ih h
    · simp only [splitBy, hc, he, Bool.false_eq_true, if_false, List.mem_cons] at h
      rcases h with rfl | h
      · intro d hd
        rcases List.mem_cons.1 hd with rfl | hd
        · simpa using hc
        · exact ih (by simp [he]) d hd
      · exact ih (by simp [he, h])

private theorem prefix_of_splitBy {sep : Char → Bool} {p t : Text} (hp : ∀ c ∈ p, sep c = false) (h : p <+: t) :
    ∃ piece pieces, splitBy sep t = piece :: pieces ∧ p <+: piece := by
  induction t generalizing p with
  | nil => exact ⟨[], [], rfl, h⟩
  | cons c t ih =>
    by_cases hc : sep c = true
    · cases p with
      | nil => exact ⟨[], splitBy sep t, by simp [splitBy, hc], List.nil_prefix⟩
      | cons d p =>
        obtain ⟨rfl, -⟩ := List.cons_prefix_cons.1 h
        exact absurd hc (by simp [hp])
    · have htail : p.tail <+: t := by
        cases p with
        | nil => exact List.nil_prefix
        | cons d p => exact (List.cons_prefix_cons.1 h).2
      obtain ⟨piece, pieces, he, hpiece⟩ := ih (fun d hd => hp d (List.mem_of_mem_tail hd)) htail
      refine ⟨c :: piece, pieces, by simp [splitBy, hc, he], ?_⟩
      cases p with
      | nil => exact List.nil_prefix
      | cons d p => exact List.cons_prefix_cons.2 ⟨(List.cons_prefix_cons.1 h).1, hpiece⟩

theorem exists_infix_of_splitBy {sep : Char → Bool} {p t : Text} (hp : ∀ c ∈ p, sep c = false) (h : p <:+: t) :
    ∃ w ∈ splitBy sep t, p <:+: w := by
  induction t with
  | nil => exact ⟨[], List.mem_singleton_self _, h⟩
  | cons c t ih =>
    rcases List.infix_cons_iff.1 h with h | h
    · obtain ⟨piece, pieces, he, hpiece⟩ := prefix_of_splitBy hp h
      exact ⟨piece, he ▸ List.mem_cons_self, hpiece.isInfix⟩
    · obtain ⟨w, hw, hin⟩ := ih h
      by_cases hc : sep c = true
      · exact ⟨w, by simp [splitBy, hc, hw], hin⟩
      · cases hs : splitBy sep t with
        | nil => exact absurd hs (splitBy_ne_nil sep t)
        | cons piece pieces =>
          have hsplit : splitBy sep (c :: t) = (c :: piece) :: pieces := by simp [splitBy, hc, hs]
          rw [hsplit]
          rw [hs] at hw
          rcases List.mem_cons.1 hw with rfl | hw
          · exact ⟨_, List.mem_cons_self, hin.trans (List.suffix_cons c w).isInfix⟩
          · exact ⟨w, List.mem_cons_of_mem _ hw, hin⟩

theorem mem_splitBy (sep : Char → Bool) {t : Text} {c : Char} (h : c ∈ t) :
    sep c = true ∨ ∃ w ∈ splitBy sep t, c ∈ w := by
  cases hc : sep c with
  | true => exact .inl rfl
  | false =>
    obtain ⟨a, b, ht⟩ := List.append_of_mem h
    have hone : ∀ d ∈ [c], sep d = false := by simpa using hc
    obtain ⟨w, hw, hin⟩ := exists_infix_of_splitBy hone (t := t) ⟨a, b, by simp [ht]⟩
    exact .inr ⟨w, hw, hin.subset (List.mem_singleton_self c)⟩

/-! ## Words -/

theorem infix_of_mem_words {t w : Text} (h : w ∈ words t) : w <:+: t :=
  infix_of_mem_splitBy (List.mem_filter.1 h).1

theorem isBlank_of_mem_words {t w : Text} (h : w ∈ words t) : ∀ c ∈ w, isBlank c = false :=
  sep_of_mem_splitBy (List.mem_filter.1 h).1

theorem words_append_of_blank {b : Text} (h : ∀ c ∈ b, isBlank c = true) (t : Text) : words (t ++ b) = words t := by
  induction b generalizing t with
  | nil => rw [List.append_nil]
  | cons c b ih =>
    have hb : words b = [] := ih (fun d hd => h d (List.mem_cons_of_mem c hd)) []
    rw [words, splitBy_append_cons (h c List.mem_cons_self), List.filter_append]
    exact (congrArg (words t ++ ·) hb).trans (List.append_nil _)

theorem collapse_append_of_blank {b : Text} (h : ∀ c ∈ b, isBlank c = true) (t : Text) :
    collapse (t ++ b) = collapse t := congrArg (join [' ']) (words_append_of_blank h t)

theorem mem_collapse {t : Text} {c : Char} (h : c ∈ collapse t) :
    c = ' ' ∨ c ∈ t ∧ isBlank c = false := by
  rcases mem_join h with h | ⟨w, hw, hc⟩
  · exact .inl (by simpa using h)
  · exact .inr ⟨(infix_of_mem_words hw).subset hc, isBlank_of_mem_words hw c hc⟩

theorem infix_of_infix_collapse {p t : Text} (hp : p ≠ []) (hc : ' ' ∉ p) (h : p <:+: collapse t) :
    p <:+: t := by
  obtain ⟨w, hw, hpw⟩ := infix_of_infix_join hp hc h
  exact hpw.trans (infix_of_mem_words hw)

theorem infix_collapse_iff {p t : Text} (hne : p ≠ []) (hp : ∀ c ∈ p, isBlank c = false) :
    p <:+: collapse t ↔ p <:+: t := by
  have hspace : ' ' ∉ p := fun h => absurd (hp _ h) (by decide)
  refine ⟨infix_of_infix_collapse hne hspace, fun h => ?_⟩
  obtain ⟨w, hw, hin⟩ := exists_infix_of_splitBy hp h
  have hword : w ∈ words t := by
    refine List.mem_filter.2 ⟨hw, ?_⟩
    have hwne : w ≠ [] := by
      rintro rfl
      exact hne (List.infix_nil.1 hin)
    simpa using hwne
  exact hin.trans (infix_join hword)

/-! ## Trimming -/

theorem trimStart_cons {c : Char} (hc : isBlank c = false) (t : Text) : trimStart (c :: t) = c :: t := by
  simp [trimStart, hc]

theorem trimStart_of_allBlank {t : Text} (h : allBlank t = true) : trimStart t = [] := by
  rw [trimStart, List.dropWhile_eq_nil_iff]
  simpa [allBlank] using h

theorem dropEndWhile_concat (p : Char → Bool) (t : Text) (c : Char) :
    dropEndWhile p (t ++ [c]) = if p c then dropEndWhile p t else t ++ [c] := by
  cases hc : p c <;> simp [dropEndWhile, hc]

theorem trimEnd_append_singleton {c : Char} (hc : isBlank c = false) (t : Text) :
    trimEnd (t ++ [c]) = t ++ [c] := by
  simp [trimEnd, dropEndWhile_concat, hc]

theorem trim_of_ends {c d : Char} (hc : isBlank c = false) (hd : isBlank d = false) (t : Text) :
    trim (c :: t ++ [d]) = c :: t ++ [d] := by
  rw [trim, List.cons_append, trimStart_cons hc, ← List.cons_append, trimEnd_append_singleton hd]

theorem trim_around {a b t : Text} (hbegins : ∃ c u, t = c :: u ∧ isBlank c = false)
    (hends : ∃ u c, t = u ++ [c] ∧ isBlank c = false) (ha : ∀ c ∈ a, isBlank c = true)
    (hb : ∀ c ∈ b, isBlank c = true) : trim (a ++ t ++ b) = t := by
  have hstart : trimStart (a ++ t ++ b) = t ++ b := by
    obtain ⟨c, u, rfl, hc⟩ := hbegins
    rw [trimStart, List.append_assoc, List.dropWhile_append_of_pos ha]
    exact trimStart_cons hc (u ++ b)
  have hend : trimEnd (t ++ b) = trimEnd t := by
    have hrev : ∀ c ∈ b.reverse, isBlank c = true := fun c hc => hb c (List.mem_reverse.1 hc)
    rw [trimEnd, dropEndWhile, List.reverse_append, List.dropWhile_append_of_pos hrev]
    rfl
  obtain ⟨u, c, rfl, hc⟩ := hends
  rw [trim, hstart, hend, trimEnd_append_singleton hc]

/-! ## Substituting -/

/-- What holds of all characters of a text and of all that is put in holds of the outcome. -/
theorem forall_mem_substitute {step : Text → Option (Text × Nat)} {P : Char → Prop} {t : Text}
    (hstep : ∀ t out n, step t = some (out, n) → ∀ c ∈ out, P c) (ht : ∀ c ∈ t, P c) :
    ∀ c ∈ substitute step t, P c := by
  have key : ∀ skip, ∀ c ∈ substitute.go step skip t, P c := by
    induction t with
    | nil => simp [substitute.go]
    | cons d t ih =>
      have ih := ih fun c hc => ht c (List.mem_cons_of_mem _ hc)
      intro skip
      cases skip with
      | succ k => simpa only [substitute.go] using ih k
      | zero =>
        simp only [substitute.go]
        split
        · next out n hs =>
          intro c hc
          rcases List.mem_append.1 hc with hc | hc
          · exact hstep _ out n hs c hc
          · exact ih _ c hc
        · intro c hc
          rcases List.mem_cons.1 hc with rfl | hc
          · exact ht c List.mem_cons_self
          · exact ih 0 c hc
  exact key 0

@[simp] theorem replace_nil (p q : Text) : replace p q [] = [] := rfl

theorem replace_append {p : Text} (hp : p ≠ []) (q r : Text) :
    replace p q (p ++ r) = q ++ replace p q r :=
  substitute_append_of_some hp (if_pos (startsWith_iff.2 (List.prefix_append p r)))

theorem replace_cons {p t : Text} {c : Char} (h : ¬p <+: c :: t) (q : Text) :
    replace p q (c :: t) = c :: replace p q t :=
  substitute_cons_of_none (if_neg (mt startsWith_iff.1 h))

theorem replace_of_notMem {p t : Text} {c : Char} (hc : c ∈ p) (h : c ∉ t) (q : Text) :
    replace p q t = t := by
  induction t with
  | nil => rfl
  | cons d t ih =>
    have hnone : ¬p <+: d :: t := fun hp => h (hp.subset hc)
    rw [List.mem_cons, not_or] at h
    rw [replace_cons hnone, ih h.2]

theorem forall_mem_replace {p q t : Text} {P : Char → Prop} (hq : ∀ c ∈ q, P c)
    (ht : ∀ c ∈ t, P c) : ∀ c ∈ replace p q t, P c := by
  refine forall_mem_substitute ?_ ht
  intro t out n h
  split at h
  · cases h; exact hq
  · cases h

end ClientGen.Text
