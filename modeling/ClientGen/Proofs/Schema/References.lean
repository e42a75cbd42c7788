import ClientGen.Api.Reachable
/-!
# References of schemas

The references of a schema are those met in it and in its parts when none is followed. The names that are
written for a schema, in its type or in its declaration, are made from these references.
-/

namespace ClientGen

open Text

namespace Schema

/-- The schemas that stand directly in a schema. -/
def parts (s : Schema) : List Schema :=
  s.properties.map Prod.snd ++ s.items.toList ++ s.allOf ++ s.additional.toList

/-- The references met in a schema. -/
inductive Mentions : Schema → Text → Prop
  | here {s : Schema} {ref : Text} (h : s.ref = some ref) : Mentions s ref
  | part {s c : Schema} {ref : Text} (hs : s.ref = none) (hc : c ∈ s.parts) (h : Mentions c ref) :
    Mentions s ref

theorem mem_parts {s c : Schema} :
    c ∈ s.parts ↔ (∃ p ∈ s.properties, p.2 = c) ∨ c ∈ s.items ∨ c ∈ s.allOf ∨ c ∈ s.additional := by
  simp [parts]

theorem sizeOf_lt_of_mem_parts {s c : Schema} (h : c ∈ s.parts) : sizeOf c < sizeOf s := by
  rw [mem_parts] at h
  obtain ⟨ref, allOf, enum, tag, items, hasProperties, properties, required, additional, isOpen,
    description⟩ := s
  rw [Schema.mk.sizeOf_spec]
  rcases h with ⟨⟨name, s⟩, hp, rfl⟩ | hi | hm | ha
  · have hlt : sizeOf (name, s) < sizeOf properties := List.sizeOf_lt_of_mem hp
    rw [Prod.mk.sizeOf_spec] at hlt
    dsimp only
    omega
  · obtain rfl : items = some c := hi
    rw [Option.some.sizeOf_spec]
    omega
  · have hlt : sizeOf c < sizeOf allOf := List.sizeOf_lt_of_mem hm
    omega
  · obtain rfl : additional = some c := ha
    rw [Option.some.sizeOf_spec]
    omega

/-- What holds of a schema whenever it holds of its parts holds of every schema. -/
@[elab_as_elim]
theorem partInduction {motive : Schema → Prop} (h : ∀ s, (∀ c ∈ s.parts, motive c) → motive s)
    (s : Schema) : motive s :=
  h s fun c hc =>
    have := sizeOf_lt_of_mem_parts hc
    partInduction h c
termination_by sizeOf s

private theorem refsOfAll_eq (ss : List Schema) : refsOfAll ss = ss.flatMap refs := by
  induction ss with
  | nil => rfl
  | cons s ss ih => simp [refsOfAll, ih]

private theorem refsOfOption_eq (s : Option Schema) : refsOfOption s = s.toList.flatMap refs := by
  cases s <;> simp [refsOfOption]

private theorem refsOfProperties_eq (ps : List (Text × Schema)) :
    refsOfProperties ps = (ps.map Prod.snd).flatMap refs := by
  induction ps with
  | nil => rfl
  | cons p ps ih => simp [refsOfProperties, ih]

theorem refs_of_ref {s : Schema} {ref : Text} (h : s.ref = some ref) : s.refs = [ref] := by
  cases s
  simp only at h
  subst h
  rfl

theorem refs_of_parts {s : Schema} (h : s.ref = none) : s.refs = s.parts.flatMap refs := by
  cases s
  simp only at h
  subst h
  simp [refs, parts, refsOfAll_eq, refsOfOption_eq, refsOfProperties_eq]

theorem mem_refs_iff {s : Schema} {ref : Text} : ref ∈ s.refs ↔ s.Mentions ref := by
  induction s using partInduction with
  | h s ih =>
    cases hs : s.ref with
    | some r =>
      rw [refs_of_ref hs, List.mem_singleton]
      constructor
      · intro h
        exact .here (h ▸ hs)
      · intro h
        cases h with
        | here h => simpa [hs] using h.symm
        | part h => simp [hs] at h
    | none =>
      rw [refs_of_parts hs, List.mem_flatMap]
      constructor
      · rintro ⟨c, hc, h⟩
        exact .part hs hc ((ih c hc).1 h)
      · intro h
        cases h with
        | here h => simp [hs] at h
        | part _ hc h => exact ⟨_, hc, (ih _ hc).2 h⟩

theorem mem_refNames_iff {s : Schema} {name : Text} :
    name ∈ s.refNames ↔ ∃ ref, s.Mentions ref ∧ refName ref = name := by
  simp [refNames, mem_refs_iff]

end Schema

end ClientGen
