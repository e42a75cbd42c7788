import ClientGen.Api.Envelope
import ClientGen.Proofs.Api.Reachable
import ClientGen.Proofs.Schema.Names
import ClientGen.Proofs.TypeScript.Imports
/-!
# Types in signatures

A type in a signature is imported under the name of a definition that it is named after, and every such
definition is referred to by the schema itself or by the definition that the schema stands for.
-/

namespace ClientGen

open Text

variable {displayName : Text → Text} {definitions : Table Schema} {field ref name : Text} {s : Schema}

namespace Schema

/-- The references met in a schema, and in the definition that it stands for. -/
inductive MetFrom (definitions : Table Schema) (s : Schema) (ref : Text) : Prop
  | mentioned (h : s.Mentions ref)
  | behind {own : Text} {envelope : Schema} (hs : s.ref = some own)
    (he : definitions.get? (refName own) = some envelope) (h : envelope.Mentions ref)

/-- The schemas in which a payload may be found. -/
inductive PayloadIn (definitions : Table Schema) (s : Schema) : Schema → Prop
  | member {member payload : Schema} (hm : member ∈ s.allOf)
    (hp : payload ∈ member.properties.map Prod.snd) : PayloadIn definitions s payload
  | behind {own : Text} {envelope payload : Schema} (hs : s.ref = some own)
    (he : definitions.get? (refName own) = some envelope)
    (hp : payload ∈ envelope.properties.map Prod.snd) : PayloadIn definitions s payload
  | own {payload : Schema} (hs : s.ref = none) (hp : payload ∈ s.properties.map Prod.snd) :
    PayloadIn definitions s payload

theorem mem_properties_of_property? {payload : Schema} (h : s.property? field = some payload) :
    payload ∈ s.properties.map Prod.snd := by
  obtain ⟨before, after, hentries, -⟩ := List.lookup_eq_some_iff.1 h
  simp [hentries]

/-! ## References without unwrapping -/

theorem reference?_mentioned {r : Reference} (h : s.reference? displayName = some r) :
    (∃ ref, s.Mentions ref ∧ refName ref = r.definition) ∧
      importOf r.type.render = importOf (displayName r.definition) := by
  unfold reference? at h
  split at h
  · next ref href =>
    obtain rfl := Option.some.inj h
    exact ⟨⟨ref, .here href, rfl⟩, rfl⟩
  · next href =>
    split at h
    · obtain ⟨ref, hitem, rfl⟩ := Option.map_eq_some_iff.1 h
      obtain ⟨item, hi, hitem⟩ := Option.bind_eq_some_iff.1 hitem
      exact ⟨⟨ref, .part href (mem_parts.2 (.inr (.inl hi))) (.here hitem), rfl⟩, importOf_array _⟩
    · cases h

private theorem innermostRef_eq (s : Schema) :
    SignatureType.innermostRef s =
      if s.tag = some "array".toList then s.items.bind SignatureType.innermostRef else s.ref := by
  obtain ⟨ref, allOf, enum, tag, items, hasProperties, properties, required, additional, isOpen,
    description⟩ := s
  cases items <;> rfl

private theorem plainType_of_ref (h : s.ref = some ref) :
    s.plainType displayName = .named (displayName (refName ref)) := by
  cases s
  simp only at h
  subst h
  rfl

private theorem plainType_of_no_ref (h : s.ref = none) :
    s.plainType displayName =
      match Keyword.ofTag? s.tag with
      | some k => .keyword k
      | none =>
        if s.tag = some "array".toList then .array ((s.items.map (plainType displayName)).getD .unknown)
        else if s.tag = some "object".toList then .record .unknown
        else .unknown := by
  obtain ⟨own, allOf, enum, tag, items, hasProperties, properties, required, additional, isOpen,
    description⟩ := s
  simp only at h
  subst h
  cases items <;> rfl

/-- A schema in which no array is a reference besides, here and in the elements of its arrays. -/
inductive ArraysAlone : Schema → Prop
  | mk {s : Schema} (alone : s.tag = some "array".toList → s.ref = none)
    (items : ∀ item ∈ s.items, ArraysAlone item) : ArraysAlone s

theorem RefsAlone.arraysAlone (h : s.RefsAlone) : s.ArraysAlone := by
  induction h with
  | mk alone _ ih =>
    refine .mk (fun harray => ?_) fun item hi => ih item (mem_parts.2 (.inr (.inl hi)))
    by_contra href
    simp [(alone href).tag] at harray

theorem innermostRef_mentioned (hs : s.ArraysAlone) (h : SignatureType.innermostRef s = some ref) :
    s.Mentions ref := by
  induction hs with
  | mk alone _ ih =>
    rw [innermostRef_eq] at h
    split at h
    · next harray =>
      obtain ⟨item, hi, h⟩ := Option.bind_eq_some_iff.1 h
      exact .part (alone harray) (mem_parts.2 (.inr (.inl hi))) (ih item hi h)
    · exact .here h

/-- The plain type of a schema is imported under the name of the innermost definition. -/
theorem importOf_plainType {n : Text} (hs : s.ArraysAlone)
    (hn : importOf (s.plainType displayName).render = some n) :
    ∃ ref, SignatureType.innermostRef s = some ref ∧ importOf (displayName (refName ref)) = some n := by
  induction hs with
  | @mk s alone _ ih =>
    rw [innermostRef_eq]
    cases href : s.ref with
    | some ref =>
      -- the schema is a reference, so that it is not taken for an array
      have htag : s.tag ≠ some "array".toList := fun harray => by simp [alone harray] at href
      rw [plainType_of_ref href] at hn
      exact ⟨ref, if_neg htag, hn⟩
    | none =>
      rw [plainType_of_no_ref href] at hn
      split at hn
      · simp at hn
      split at hn
      · next harray =>
        rw [if_pos harray]
        replace hn := (importOf_array _).symm.trans hn
        cases hi : s.items with
        | none => simp [hi] at hn
        | some item =>
          rw [hi] at hn
          exact ih item hi hn
      split at hn
      · simp at hn
      · simp at hn

/-! ## Payloads -/

private theorem mentions_of_mem_properties {payload : Schema} (hs : s.ref = none)
    (hp : payload ∈ s.properties.map Prod.snd) (h : payload.Mentions ref) : s.Mentions ref :=
  .part hs (mem_parts.2 (.inl (List.mem_map.1 hp))) h

private theorem RefsAlone.of_mem_properties {payload : Schema} (hs : s.RefsAlone)
    (hp : payload ∈ s.properties.map Prod.snd) : payload.RefsAlone :=
  hs.of_part (mem_parts.2 (.inl (List.mem_map.1 hp)))

private theorem RefsAlone.ref_eq_none_of_property (hs : s.RefsAlone) {payload : Schema}
    (hp : payload ∈ s.properties.map Prod.snd) : s.ref = none :=
  hs.ref_eq_none fun hplain => by simp [hplain.properties.2] at hp

/-- A schema in which every reference stands alone, as in the definition that it stands for. -/
structure IsSound (definitions : Table Schema) (s : Schema) : Prop where
  alone : s.RefsAlone
  behind_alone : ∀ own ∈ s.ref, ∀ envelope ∈ definitions.get? (refName own), envelope.RefsAlone

namespace PayloadIn

variable {payload : Schema}

theorem refsAlone (h : PayloadIn definitions s payload) (hs : s.IsSound definitions) : payload.RefsAlone := by
  cases h with
  | member hm hp => exact (hs.alone.of_part (mem_parts.2 (.inr (.inr (.inl hm))))).of_mem_properties hp
  | behind href he hp => exact (hs.behind_alone _ href _ he).of_mem_properties hp
  | own href hp => exact hs.alone.of_mem_properties hp

theorem metFrom (h : PayloadIn definitions s payload) (hs : s.IsSound definitions)
    (hm : payload.Mentions ref) : s.MetFrom definitions ref := by
  cases h with
  | member hmem hp =>
    have hpart := mem_parts.2 (.inr (.inr (.inl hmem)))
    have hown : s.ref = none := hs.alone.ref_eq_none fun hplain => by simp [hplain.allOf] at hmem
    have hmember := (hs.alone.of_part hpart).ref_eq_none_of_property hp
    exact .mentioned (.part hown hpart (mentions_of_mem_properties hmember hp hm))
  | behind href he hp =>
    have henvelope := (hs.behind_alone _ href _ he).ref_eq_none_of_property hp
    exact .behind href he (mentions_of_mem_properties henvelope hp hm)
  | own href hp => exact .mentioned (mentions_of_mem_properties href hp hm)

end PayloadIn

end Schema

namespace SignatureType

open Schema

/-- Where the imports and the references of a type in a signature come from. -/
structure ComesFrom (displayName : Text → Text) (definitions : Table Schema) (origins : List Schema)
    (t : SignatureType) : Prop where
  imported : ∀ e ∈ t.type, ∀ n, importOf e.render = some n →
    ∃ definition ∈ t.namedAfter, importOf (displayName definition) = some n
  named : ∀ definition ∈ t.namedAfter, ∃ s ∈ origins, ∃ ref, s.MetFrom definitions ref ∧
    refName ref = definition
  met : ∀ ref ∈ t.met, ∃ s ∈ origins, s.MetFrom definitions ref

variable {origins : List Schema}

theorem nothing_comesFrom : ({} : SignatureType).ComesFrom displayName definitions origins := by
  constructor <;> simp

private theorem comesFrom_of_name {type : TypeExpr} {definition : Text} {met : List Text}
    (ht : importOf type.render = importOf (displayName definition))
    (hd : ∃ s ∈ origins, ∃ ref, s.MetFrom definitions ref ∧ refName ref = definition)
    (hm : ∀ ref ∈ met, ∃ s ∈ origins, s.MetFrom definitions ref) :
    ComesFrom displayName definitions origins ⟨some type, [definition], met⟩ where
  imported e he n hn := by
    obtain rfl := Option.some.inj he
    exact ⟨definition, List.mem_singleton_self _, ht.symm.trans hn⟩
  named d hmem := List.mem_singleton.1 hmem ▸ hd
  met := hm

theorem ofSchema_comesFrom (hs : s ∈ origins) :
    (ofSchema displayName s).ComesFrom displayName definitions origins := by
  unfold ofSchema
  split
  · next r hr =>
    obtain ⟨⟨ref, hm, hname⟩, himport⟩ := reference?_mentioned hr
    exact comesFrom_of_name himport ⟨s, hs, ref, .mentioned hm, hname⟩ (by simp)
  · exact nothing_comesFrom

theorem ofPayload_comesFrom {payload : Schema} (h : PayloadIn definitions s payload) (hs : s ∈ origins)
    (hsound : s.IsSound definitions) :
    (ofPayload displayName payload).ComesFrom displayName definitions origins := by
  have hmet : ∀ ref ∈ payload.refs, ∃ s ∈ origins, s.MetFrom definitions ref := fun ref href =>
    ⟨s, hs, h.metFrom hsound (mem_refs_iff.1 href)⟩
  unfold ofPayload
  split
  · next r hr =>
    obtain ⟨⟨ref, hm, hname⟩, himport⟩ := reference?_mentioned hr
    exact comesFrom_of_name himport ⟨s, hs, ref, h.metFrom hsound hm, hname⟩ hmet
  · have hpayload := (h.refsAlone hsound).arraysAlone
    refine ⟨?_, ?_, hmet⟩
    · intro e he n hn
      obtain rfl := Option.some.inj he
      obtain ⟨ref, href, hn⟩ := importOf_plainType hpayload hn
      exact ⟨refName ref, by simp [href], hn⟩
    · intro definition hd
      obtain ⟨ref, href, rfl⟩ := Option.map_eq_some_iff.1 (Option.mem_toList.1 hd)
      exact ⟨s, hs, ref, h.metFrom hsound (innermostRef_mentioned hpayload href), rfl⟩

/-- What is unwrapped is named after definitions that the response refers to, itself or by the definition that
it stands for. -/
theorem unwrap_comesFrom (hs : s ∈ origins) (hsound : s.IsSound definitions) :
    (unwrap displayName definitions field s).ComesFrom displayName definitions origins := by
  have hpayload {payload : Schema} (h : PayloadIn definitions s payload) :
      (ofPayload displayName payload).ComesFrom displayName definitions origins :=
    ofPayload_comesFrom h hs hsound
  unfold unwrap
  split
  · -- a composition: the first of its members that has the field
    split
    · next payload hp =>
      obtain ⟨member, hm, hp⟩ := List.exists_of_findSome?_eq_some hp
      exact hpayload (.member hm (mem_properties_of_property? hp))
    · exact nothing_comesFrom
  split
  · next ref href =>
    -- a reference: the field of its definition, or else the definition
    dsimp only
    split
    · exact nothing_comesFrom
    · next envelope he =>
      split
      · next payload hp => exact hpayload (.behind href he (mem_properties_of_property? hp))
      · exact comesFrom_of_name rfl ⟨s, hs, ref, .mentioned (.here href), rfl⟩ (by simp)
  · next href =>
    split
    · next payload hp => exact hpayload (.own href (mem_properties_of_property? hp))
    · exact ofSchema_comesFrom hs

end SignatureType

end ClientGen
