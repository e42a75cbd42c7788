import ClientGen.Proofs.Text.Occurrence
import ClientGen.TypeScript.Region
/-!
# Merging regions

Taking a file apart at its markers and putting it together again are inverse to each other. From this it
follows that merging changes the region alone, and that of several merges only the last one counts.
-/

namespace ClientGen

namespace MarkedFile

/-- The markers of the file are the first ones in its text. -/
structure IsProper (f : MarkedFile) : Prop where
  start_first : ¬startMarker <:+: f.before ++ startMarker.dropLast
  end_first : ¬endMarker <:+: f.before ++ startMarker ++ f.region ++ endMarker.dropLast

private theorem startMarker_ne_nil : startMarker ≠ [] := by decide

private theorem endMarker_ne_nil : endMarker ≠ [] := by decide

private theorem endMarker_not_within_startMarker :
    ∀ k < startMarker.length, ¬(startMarker.drop k).take endMarker.length <+: endMarker := by
  decide

private theorem startMarker_before_endMarker {b inside u r : Text}
    (h : b ++ startMarker ++ inside = u ++ endMarker ++ r) (hu : b.length ≤ u.length) :
    ∃ region, u = b ++ startMarker ++ region ∧ inside = region ++ endMarker ++ r := by
  rw [List.append_assoc, List.append_assoc] at h
  obtain ⟨w, rfl⟩ : b <+: u :=
    List.prefix_of_prefix_length_le ⟨_, h⟩ (List.prefix_append u _) hu
  rw [List.append_assoc, List.append_cancel_left_eq] at h
  rcases List.append_eq_append_iff.1 h with ⟨region, rfl, hr⟩ | ⟨w', hw, hr⟩
  · exact ⟨region, by simp, by simpa using hr⟩
  · by_cases hw' : w' = []
    · subst hw'
      exact ⟨[], by simpa using congrArg (b ++ ·) hw.symm, by simpa using hr.symm⟩
    · have hk : w.length < startMarker.length := by
        rw [hw, List.length_append]
        exact Nat.lt_add_of_pos_right (List.length_pos_iff.2 hw')
      have hdrop : startMarker.drop w.length = w' := by rw [hw, List.drop_left]
      have hpre : w'.take endMarker.length <+: endMarker := by
        refine List.prefix_of_prefix_length_le ?_ ⟨r, hr⟩ (List.length_take_le _ _)
        exact (List.take_prefix _ _).trans (List.prefix_append _ _)
      exact absurd (hdrop ▸ hpre) (endMarker_not_within_startMarker _ hk)

theorem cut?_startMarker {f : MarkedFile} (hf : f.IsProper) :
    Text.cut? startMarker f.toText = some (f.before, f.region ++ endMarker ++ f.after) := by
  rw [Text.cut?_eq_some_iff startMarker_ne_nil]
  exact ⟨by simp [toText], hf.start_first⟩

theorem cut?_endMarker {f : MarkedFile} (hf : f.IsProper) :
    Text.cut? endMarker f.toText = some (f.before ++ startMarker ++ f.region, f.after) := by
  rw [Text.cut?_eq_some_iff endMarker_ne_nil]
  exact ⟨by simp [toText], hf.end_first⟩

theorem ofText?_eq_some_iff {t : Text} {f : MarkedFile} :
    ofText? t = some f ↔ t = f.toText ∧ f.IsProper := by
  constructor
  · intro h
    simp only [ofText?] at h
    split at h
    · cases h
    · next b inside hs =>
      split at h
      · cases h
      · next u r he =>
        split at h
        · cases h
        · next hlen =>
          obtain ⟨ht, hstart⟩ := (Text.cut?_eq_some_iff startMarker_ne_nil).1 hs
          obtain ⟨ht', hend⟩ := (Text.cut?_eq_some_iff endMarker_ne_nil).1 he
          obtain ⟨region, rfl, rfl⟩ :=
            startMarker_before_endMarker (ht.symm.trans ht') (Nat.not_lt.1 hlen)
          have hsize : (region ++ endMarker ++ r).length - endMarker.length - r.length =
              region.length := by
            simp only [List.length_append]
            omega
          rw [hsize, List.append_assoc, List.take_left, Option.some.injEq] at h
          subst h
          exact ⟨by simp [ht, toText], hstart, by simpa using hend⟩
  · rintro ⟨rfl, hf⟩
    have hs := cut?_startMarker hf
    have he := cut?_endMarker hf
    have hlen : ¬(f.before ++ startMarker ++ f.region).length < f.before.length := by
      simp only [List.length_append]
      omega
    have hsize : (f.region ++ endMarker ++ f.after).length - endMarker.length - f.after.length =
        f.region.length := by
      simp only [List.length_append]
      omega
    simp only [ofText?, hs, he, hlen, if_false, hsize]
    rw [List.append_assoc, List.take_left]

theorem cut?_startMarker_of_usable {t : Text} {f : MarkedFile} (h : ofText? t = some f) :
    Text.cut? startMarker t = some (f.before, f.region ++ endMarker ++ f.after) := by
  obtain ⟨rfl, hf⟩ := ofText?_eq_some_iff.1 h
  exact cut?_startMarker hf

theorem cut?_endMarker_of_usable {t : Text} {f : MarkedFile} (h : ofText? t = some f) :
    Text.cut? endMarker t = some (f.before ++ startMarker ++ f.region, f.after) := by
  obtain ⟨rfl, hf⟩ := ofText?_eq_some_iff.1 h
  exact cut?_endMarker hf

theorem IsProper.exchange {f g : MarkedFile} (hf : f.IsProper) (hg : g.IsProper) :
    ({ f with region := g.region } : MarkedFile).IsProper where
  start_first := hf.start_first
  end_first h := by
    rw [List.append_assoc] at h
    rcases Text.infix_or_infix_of_middle h (by decide) with h | h
    · refine hf.end_first (h.trans ?_)
      rw [List.append_assoc (f.before ++ startMarker)]
      exact (List.prefix_append _ _).isInfix
    · refine hg.end_first (h.trans ?_)
      simp only [List.append_assoc]
      exact (List.suffix_append _ _).isInfix

end MarkedFile

open MarkedFile

theorem mergeFunctionsFile_of_usable {e g : Text} {f r : MarkedFile} (he : ofText? e = some f)
    (hg : ofText? g = some r) :
    mergeFunctionsFile (some e) g = ⟨{ f with region := r.region }.toText, .merged⟩ := by
  simp only [mergeFunctionsFile, he, hg]

theorem mergeFunctionsFile_of_unusable {e g : Text} (h : ofText? e = none ∨ ofText? g = none) :
    mergeFunctionsFile (some e) g = ⟨g, .replaced⟩ := by
  rcases h with h | h
  · simp only [mergeFunctionsFile, h]
  · cases he : ofText? e <;> simp only [mergeFunctionsFile, he, h]

theorem ofText?_mergeFunctionsFile {e g : Text} {f r : MarkedFile} (he : ofText? e = some f)
    (hg : ofText? g = some r) :
    ofText? (mergeFunctionsFile (some e) g).content = some { f with region := r.region } := by
  rw [mergeFunctionsFile_of_usable he hg, ofText?_eq_some_iff]
  exact ⟨rfl, (ofText?_eq_some_iff.1 he).2.exchange (ofText?_eq_some_iff.1 hg).2⟩

/-- The text of a file after merges with several texts, one after the other. -/
def mergeAll (e : Text) (gs : List Text) : Text :=
  gs.foldl (fun t g => (mergeFunctionsFile (some t) g).content) e

private theorem ofText?_mergeAll {e : Text} {f : MarkedFile} (he : ofText? e = some f)
    {gs : List Text} (hgs : ∀ g ∈ gs, (ofText? g).isSome) :
    ∃ region, ofText? (mergeAll e gs) = some { f with region } := by
  induction gs generalizing e f with
  | nil => exact ⟨f.region, he⟩
  | cons g gs ih =>
    obtain ⟨r, hr⟩ := Option.isSome_iff_exists.1 (hgs g List.mem_cons_self)
    have hstep := ofText?_mergeFunctionsFile he hr
    obtain ⟨region, h⟩ := ih hstep fun g hg => hgs g (List.mem_cons_of_mem _ hg)
    exact ⟨region, h⟩

/-- A merge changes the text between the markers alone, and no merge leaves a trace of the ones before
it. -/
theorem mergeFunctionsFile_keeps_outside {e g₁ g₂ : Text} {f r₁ r₂ : MarkedFile}
    (he : ofText? e = some f) (h₁ : ofText? g₁ = some r₁) (h₂ : ofText? g₂ = some r₂) :
    let m := mergeFunctionsFile (some e) g₁
    m.action = .merged ∧
      ofText? m.content = some ⟨f.before, r₁.region, f.after⟩ ∧
      (Text.cut? startMarker m.content).map Prod.fst = (Text.cut? startMarker e).map Prod.fst ∧
      (Text.cut? endMarker m.content).map Prod.snd = (Text.cut? endMarker e).map Prod.snd ∧
      mergeFunctionsFile (some m.content) g₂ = mergeFunctionsFile (some e) g₂ ∧
      mergeFunctionsFile (some m.content) g₁ = m ∧
      ∀ gs : List Text, (∀ g ∈ gs, (ofText? g).isSome) →
        (∃ region, ofText? (mergeAll e gs) = some ⟨f.before, region, f.after⟩) ∧
          mergeAll e (gs ++ [g₁]) = m.content := by
  intro m
  have hm : ofText? m.content = some { f with region := r₁.region } :=
    ofText?_mergeFunctionsFile he h₁
  have hover {t g : Text} {region : Text} {r : MarkedFile}
      (ht : ofText? t = some { f with region }) (hg : ofText? g = some r) :
      mergeFunctionsFile (some t) g = mergeFunctionsFile (some e) g := by
    rw [mergeFunctionsFile_of_usable ht hg, mergeFunctionsFile_of_usable he hg]
  refine ⟨?_, hm, ?_, ?_, hover hm h₂, hover hm h₁, ?_⟩
  · exact congrArg Merge.action (mergeFunctionsFile_of_usable he h₁)
  · rw [cut?_startMarker_of_usable hm, cut?_startMarker_of_usable he, Option.map_some,
      Option.map_some]
  · rw [cut?_endMarker_of_usable hm, cut?_endMarker_of_usable he, Option.map_some, Option.map_some]
  · intro gs hgs
    obtain ⟨region, hr⟩ := ofText?_mergeAll he hgs
    refine ⟨⟨region, hr⟩, ?_⟩
    rw [mergeAll, List.foldl_append]
    exact congrArg Merge.content (hover hr h₁)

/-- A second start marker in the region and a second end marker behind it move nothing. -/
theorem mergeFunctionsFile_keeps_stray_markers :
    let e := "a".toList ++ startMarker ++ "b".toList ++ endMarker ++ "c".toList ++ endMarker
    let g₁ := "d".toList ++ startMarker ++ "e".toList ++ startMarker ++ endMarker ++ "f".toList
    let g₂ := startMarker ++ "\n".toList ++ endMarker
    let m := mergeFunctionsFile (some e) g₁
    ofText? e = some ⟨"a", "b", "c".toList ++ endMarker⟩ ∧
      ofText? m.content = some ⟨"a", "e".toList ++ startMarker, "c".toList ++ endMarker⟩ ∧
      mergeFunctionsFile (some m.content) g₂ = mergeFunctionsFile (some e) g₂ := by
  intro e g₁ g₂ m
  have he : ofText? e = some ⟨"a", "b", "c".toList ++ endMarker⟩ := by decide
  have h₁ : ofText? g₁ = some ⟨"d", "e".toList ++ startMarker, "f"⟩ := by decide
  have h₂ : ofText? g₂ = some ⟨[], "\n", []⟩ := by decide
  have h := mergeFunctionsFile_keeps_outside he h₁ h₂
  exact ⟨he, h.2.1, h.2.2.2.2.1⟩

end ClientGen
