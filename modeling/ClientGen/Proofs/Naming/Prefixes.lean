import ClientGen.Naming
import ClientGen.Proofs.Text.Occurrence
/-!
# Prefixes of paths

A path loses the longest of the prefixes that cover whole segments of it. Prefixes are tried in the order of their
lengths with the slash at the end counted, and they cover without it; among those that cover one path the two orders
are the same.
-/

namespace ClientGen.Naming

open Text

/-- A prefix without the slash at its end. -/
def withoutSlash (p : Text) : Text := (beforeEnd? ['/'] p).getD p

/-- Whether a text stands for whole segments at the beginning of a path. -/
def Covers (form path : Text) : Prop := form ≠ [] ∧ (path = form ∨ form ++ ['/'] <+: path)

instance (form path : Text) : Decidable (Covers form path) := inferInstanceAs (Decidable (_ ∧ _))

/-- The path itself, or the root if nothing is left of it. -/
def orRoot (rest : Text) : Text := if rest = [] then ['/'] else rest

/-- Of the prefixes that cover a path, one whose form is the longest. -/
structure IsLongest (path : Text) (prefixes : List Text) (p : Text) : Prop where
  mem : p ∈ prefixes
  covers : Covers (withoutSlash p) path
  longest : ∀ q ∈ prefixes, Covers (withoutSlash q) path → (withoutSlash q).length ≤ (withoutSlash p).length

variable {path p q : Text} {prefixes : List Text}

/-! ## Forms -/

private theorem withoutSlash_append (t : Text) : withoutSlash (t ++ ['/']) = t := by
  rw [withoutSlash, beforeEnd?_eq_some_iff.2 rfl, Option.getD_some]

private theorem withoutSlash_of_ne {c : Char} (hc : c ≠ '/') (t : Text) : withoutSlash (t ++ [c]) = t ++ [c] := by
  have hnone : beforeEnd? ['/'] (t ++ [c]) = none := by
    simp [beforeEnd?, afterStart?, Ne.symm hc]
  rw [withoutSlash, hnone, Option.getD_none]

private theorem withoutSlash_cases (hp : ¬['/', '/'] <:+ p) :
    (p = withoutSlash p ∨ p = withoutSlash p ++ ['/']) ∧ ∀ t, withoutSlash p ≠ t ++ ['/'] := by
  rcases List.eq_nil_or_concat p with rfl | ⟨t, c, rfl⟩
  · exact ⟨.inl rfl, fun t => by simp [withoutSlash, beforeEnd?, afterStart?]⟩
  rw [List.concat_eq_append] at hp ⊢
  by_cases hc : c = '/'
  · subst hc
    rw [withoutSlash_append]
    refine ⟨.inr rfl, fun u hu => hp ⟨u, ?_⟩⟩
    simp [hu]
  · rw [withoutSlash_of_ne hc]
    refine ⟨.inl rfl, fun u hu => hc ?_⟩
    simpa using congrArg List.getLast? hu

private theorem dropSlashes_eq (hp : ¬['/', '/'] <:+ p) : dropEndWhile (· == '/') p = withoutSlash p := by
  obtain ⟨hform, hend⟩ := withoutSlash_cases hp
  generalize withoutSlash p = form at hform hend ⊢
  have hbare : dropEndWhile (· == '/') form = form := by
    rcases List.eq_nil_or_concat form with rfl | ⟨t, c, rfl⟩
    · rfl
    · rw [List.concat_eq_append] at hend ⊢
      have hc : c ≠ '/' := fun hc => hend t (hc ▸ rfl)
      simp [dropEndWhile, hc]
  rcases hform with rfl | rfl
  · exact hbare
  · simpa [dropEndWhile] using hbare

/-! ## One prefix -/

private theorem afterSegments?_eq_some_iff {form rest : Text} (hne : form ≠ []) :
    afterSegments? form path = some rest ↔ Covers form path ∧ rest = orRoot (path.drop form.length) := by
  have hnot (h : ∀ r, path ≠ form ++ r) : ¬Covers form path := by
    rintro ⟨-, rfl | ⟨r, rfl⟩⟩
    · exact h [] (by simp)
    · exact h ('/' :: r) (by simp)
  unfold afterSegments?
  split
  · next h =>
    obtain rfl : path = form := by simpa using afterStart?_eq_some_iff.1 h
    simp [Covers, orRoot, hne, eq_comm]
  · next r h =>
    obtain rfl := afterStart?_eq_some_iff.1 h
    simp [Covers, orRoot, hne, eq_comm]
  · next hnil hslash =>
    have hno : ¬Covers form path := by
      rintro ⟨-, rfl | ⟨r, rfl⟩⟩
      · exact hnil (afterStart?_eq_some_iff.2 (by simp))
      · exact hslash r (afterStart?_eq_some_iff.2 (by simp))
    simp [hno]

/-- Of two forms that cover a path, the longer one belongs to a prefix that is longer with its slash too. -/
private theorem length_lt_of_covers (hp : ¬['/', '/'] <:+ p) (hq : ¬['/', '/'] <:+ q)
    (hcp : Covers (withoutSlash p) path) (hcq : Covers (withoutSlash q) path)
    (h : (withoutSlash p).length < (withoutSlash q).length) : p.length < q.length := by
  obtain ⟨hformp, -⟩ := withoutSlash_cases hp
  obtain ⟨hformq, hendq⟩ := withoutSlash_cases hq
  have hprefixq : withoutSlash q <+: path := by
    rcases hcq.2 with h | h
    · exact h ▸ List.prefix_rfl
    · exact (List.prefix_append _ _).trans h
  have hslash : withoutSlash p ++ ['/'] <+: path := by
    rcases hcp.2 with h' | h'
    · have := hprefixq.length_le
      rw [h'] at this
      omega
    · exact h'
  -- A form longer by one character would be the shorter one with a slash behind it.
  have hfar : (withoutSlash p).length + 1 < (withoutSlash q).length := by
    refine lt_of_le_of_ne h fun heq => hendq (withoutSlash p) ?_
    have hwithin := List.prefix_of_prefix_length_le hslash hprefixq (by simp [heq])
    exact (hwithin.eq_of_length (by simp [heq])).symm
  have hlenp : p.length ≤ (withoutSlash p).length + 1 := by
    rcases hformp with h | h
    · rw [← h]
      omega
    · rw [congrArg List.length h, List.length_append, List.length_singleton]
  have hlenq : (withoutSlash q).length ≤ q.length := by
    rcases hformq with h | h
    · rw [← h]
    · rw [congrArg List.length h, List.length_append]
      omega
  omega

/-! ## All prefixes -/

theorem mem_longestFirst : p ∈ longestFirst prefixes ↔ p ∈ prefixes :=
  (List.mergeSort_perm prefixes _).mem_iff

theorem pairwise_longestFirst (prefixes : List Text) :
    (longestFirst prefixes).Pairwise fun s t => t.length ≤ s.length := by
  have h := @List.pairwise_mergeSort _ (fun s t : Text => decide (t.length ≤ s.length))
    (fun a b c hab hbc => by simp only [decide_eq_true_eq] at *; omega)
    (fun a b => by simp only [Bool.or_eq_true, decide_eq_true_eq]; omega) prefixes
  simpa [longestFirst] using h

private theorem cleanPath_eq (hslash : ∀ p ∈ prefixes, ¬['/', '/'] <:+ p) :
    cleanPath path prefixes =
      (((longestFirst prefixes).find? fun p => Covers (withoutSlash p) path).map
        fun p => orRoot (path.drop (withoutSlash p).length)).getD path := by
  have key (ps : List Text) (hps : ∀ p ∈ ps, ¬['/', '/'] <:+ p) :
      ((ps.map (dropEndWhile (· == '/'))).filter (· ≠ [])).findSome? (afterSegments? · path) =
        (ps.find? fun p => Covers (withoutSlash p) path).map fun p => orRoot (path.drop (withoutSlash p).length) := by
    induction ps with
    | nil => rfl
    | cons p ps ih =>
      have ih := ih fun q hq => hps q (List.mem_cons_of_mem _ hq)
      rw [List.map_cons, dropSlashes_eq (hps p List.mem_cons_self)]
      by_cases hne : withoutSlash p = []
      · have hno : ¬Covers (withoutSlash p) path := fun h => h.1 hne
        rw [List.filter_cons_of_neg (by simp [hne]), List.find?_cons_of_neg (by simpa using hno), ih]
      · rw [List.filter_cons_of_pos (by simp [hne]), List.findSome?_cons]
        by_cases hc : Covers (withoutSlash p) path
        · rw [(afterSegments?_eq_some_iff hne).2 ⟨hc, rfl⟩, List.find?_cons_of_pos (by simpa using hc), Option.map_some]
        · have hnone : afterSegments? (withoutSlash p) path = none :=
            Option.eq_none_iff_forall_ne_some.2 fun r hr => hc ((afterSegments?_eq_some_iff hne).1 hr).1
          rw [hnone, List.find?_cons_of_neg (by simpa using hc), ← ih]
  rw [← key _ fun p hp => hslash p (mem_longestFirst.1 hp)]
  rfl

private theorem cleanPath_cases (path : Text) (hslash : ∀ p ∈ prefixes, ¬['/', '/'] <:+ p) :
    (∀ p ∈ prefixes, ¬Covers (withoutSlash p) path) ∧ cleanPath path prefixes = path ∨
      ∃ p, IsLongest path prefixes p ∧ cleanPath path prefixes = orRoot (path.drop (withoutSlash p).length) := by
  rw [cleanPath_eq hslash]
  cases h : (longestFirst prefixes).find? fun p => Covers (withoutSlash p) path with
  | none =>
    refine .inl ⟨fun p hp => ?_, rfl⟩
    simpa using List.find?_eq_none.1 h p (mem_longestFirst.2 hp)
  | some p =>
    obtain ⟨hcovers, before, behind, hsplit, hbefore⟩ := List.find?_eq_some_iff_append.1 h
    have hcovers : Covers (withoutSlash p) path := by simpa using hcovers
    have hp : p ∈ prefixes := mem_longestFirst.1 (hsplit ▸ by simp)
    refine .inr ⟨p, ⟨hp, hcovers, fun q hq hcq => ?_⟩, rfl⟩
    by_contra hlong
    have hlt := length_lt_of_covers (hslash p hp) (hslash q hq) hcovers hcq (by omega)
    -- The longer prefix stands in front, and would have been found.
    have hsorted := hsplit ▸ pairwise_longestFirst prefixes
    have hq : q ∈ before ++ p :: behind := hsplit ▸ mem_longestFirst.2 hq
    rcases List.mem_append.1 hq with hq | hq
    · simpa [hcq] using hbefore q hq
    · rcases List.mem_cons.1 hq with rfl | hq
      · omega
      · have hle := (List.pairwise_cons.1 (List.pairwise_append.1 hsorted).2.1).1 q hq
        omega

theorem IsLongest.length_eq (hp : IsLongest path prefixes p) (hq : IsLongest path prefixes q) :
    (withoutSlash p).length = (withoutSlash q).length :=
  le_antisymm (hq.longest p hp.mem hp.covers) (hp.longest q hq.mem hq.covers)

private theorem head?_orRoot (hp : Covers (withoutSlash p) path) :
    (orRoot (path.drop (withoutSlash p).length)).head? = some '/' := by
  rcases hp.2 with h | ⟨r, h⟩
  · rw [← h, List.drop_length]
    rfl
  · rw [← h]
    simp [orRoot]

/-- A path without the prefixes that cover whole segments of it: nothing is left out if no prefix covers the path, and
otherwise the longest form that does. What is left begins with a slash, and depends neither on the order nor on the
repetition of the prefixes, nor on whether they are sorted before. -/
theorem cleanPath_without_longest (hpath : path.head? = some '/') (hslash : ∀ p ∈ prefixes, ¬['/', '/'] <:+ p) :
    ((∀ p ∈ prefixes, ¬Covers (withoutSlash p) path) → cleanPath path prefixes = path) ∧
    ((∃ p ∈ prefixes, Covers (withoutSlash p) path) → ∃ p, IsLongest path prefixes p) ∧
    (∀ p, IsLongest path prefixes p → cleanPath path prefixes = orRoot (path.drop (withoutSlash p).length)) ∧
    (cleanPath path prefixes).head? = some '/' ∧
    ∀ others, (∀ p, p ∈ others ↔ p ∈ prefixes) →
      cleanPath path others = cleanPath path prefixes ∧
        cleanPath path (longestFirst others) = cleanPath path prefixes := by
  have hcases := cleanPath_cases path hslash
  have hlongest (p : Text) (hp : IsLongest path prefixes p) :
      cleanPath path prefixes = orRoot (path.drop (withoutSlash p).length) := by
    rcases hcases with ⟨hnone, -⟩ | ⟨q, hq, heq⟩
    · exact absurd hp.covers (hnone p hp.mem)
    · rw [heq, hq.length_eq hp]
  have hsame (others : List Text) (hmem : ∀ p, p ∈ others ↔ p ∈ prefixes) :
      cleanPath path others = cleanPath path prefixes := by
    rcases cleanPath_cases path fun p hp => hslash p ((hmem p).1 hp) with ⟨hnone, heq⟩ | ⟨p, hp, heq⟩
    · rcases hcases with ⟨-, heq'⟩ | ⟨q, hq, -⟩
      · rw [heq, heq']
      · exact absurd hq.covers (hnone q ((hmem q).2 hq.mem))
    · have hp' : IsLongest path prefixes p :=
        ⟨(hmem p).1 hp.mem, hp.covers, fun q hq => hp.longest q ((hmem q).2 hq)⟩
      rw [heq, hlongest p hp']
  refine ⟨fun hnone => ?_, fun ⟨p, hp, hc⟩ => ?_, hlongest, ?_, fun others hmem => ⟨hsame others hmem, ?_⟩⟩
  · rcases hcases with ⟨-, heq⟩ | ⟨p, hp, -⟩
    · exact heq
    · exact absurd hp.covers (hnone p hp.mem)
  · rcases hcases with ⟨hnone, -⟩ | ⟨q, hq, -⟩
    · exact absurd hc (hnone p hp)
    · exact ⟨q, hq⟩
  · rcases hcases with ⟨-, heq⟩ | ⟨p, hp, heq⟩
    · rw [heq, hpath]
    · rw [heq, head?_orRoot hp.covers]
  · exact hsame _ fun p => mem_longestFirst.trans (hmem p)

/-- The prefix `/api/` is as long as `/apis` with its slash; only its form covers the path. -/
theorem cleanPath_without_longest_of_api :
    let prefixes : List Text := ["/apis", "/api/", "/api/v1", "/"]
    "/api/v1/pets".toList.head? = some '/' ∧ (∀ p ∈ prefixes, ¬['/', '/'] <:+ p) ∧
      IsLongest "/api/v1/pets" prefixes "/api/v1" ∧ cleanPath "/api/v1/pets" prefixes = "/pets".toList := by
  intro prefixes
  have hslash : ∀ p ∈ prefixes, ¬['/', '/'] <:+ p := by decide
  have hlongest : IsLongest "/api/v1/pets" prefixes "/api/v1" := ⟨by decide, by decide, by decide⟩
  have hpath : "/api/v1/pets".toList.head? = some '/' := rfl
  refine ⟨hpath, hslash, hlongest, ?_⟩
  have h := (cleanPath_without_longest hpath hslash).2.2.1 _ hlongest
  exact h.trans (by decide)

end ClientGen.Naming
