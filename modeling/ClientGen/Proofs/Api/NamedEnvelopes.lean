import ClientGen.Proofs.Api.Signature
/-!
# Envelopes with a name

A response that refers to an envelope is unwrapped by the properties that the envelope has itself. So the name
makes no difference to an envelope of its own properties, but hides the fields that it gets from a composition or
from another definition.
-/

namespace ClientGen

open Text

variable {displayName : Text → Text} {definitions : Table Schema} {field ref : Text} {s payload : Schema}

namespace Schema

/-- The schema that an envelope has under a field: in its own properties, in the properties of the first member of
its composition that has the field, or in those of the definition that it refers to. -/
inductive FieldIn (definitions : Table Schema) (field : Text) (s : Schema) : Schema → Prop
  | own {payload : Schema} (hc : s.allOf = []) (hs : s.ref = none) (hp : s.property? field = some payload) :
    FieldIn definitions field s payload
  | member {payload : Schema} (hp : s.allOf.findSome? (·.property? field) = some payload) :
    FieldIn definitions field s payload
  | behind {own : Text} {envelope payload : Schema} (hc : s.allOf = []) (hs : s.ref = some own)
    (he : definitions.get? (refName own) = some envelope) (hp : envelope.property? field = some payload) :
    FieldIn definitions field s payload

/-- The schema that stands for the definition of a reference. -/
def link (ref : Text) : Schema := { empty with ref := some ref }

theorem ofFields_link (h : ref ≠ []) : ofFields [(.text "$ref", .text ref)] = link ref := by
  have href : (Value.text ref).nonemptyText? = some ref := by
    cases ref with
    | nil => exact absurd rfl h
    | cons _ _ => rfl
  exact congrArg (fun ref => ({ empty with ref } : Schema)) href

end Schema

namespace SignatureType

open Schema

/-- The type that is called like an envelope. -/
def ofEnvelope (displayName : Text → Text) (definition : Text) : SignatureType where
  type := some (.named (displayName definition))
  namedAfter := [definition]

theorem unwrap_eq_ofPayload (h : s.FieldIn definitions field payload) :
    unwrap displayName definitions field s = ofPayload displayName payload := by
  unfold unwrap
  cases h with
  | own hc hs hp =>
    rw [hc, hs, hp]
    rfl
  | member hp =>
    have hc : s.allOf.isEmpty = false := by
      cases h : s.allOf with
      | nil => rw [h] at hp; cases hp
      | cons _ _ => rfl
    rw [hc, hp]
    rfl
  | behind hc hs he hp =>
    rw [hc, hs]
    simp only [he, hp]
    rfl

private theorem met_ofPayload (displayName : Text → Text) (s : Schema) : (ofPayload displayName s).met = s.refs := by
  unfold ofPayload
  split <;> rfl

/-- What is met when a response is unwrapped is referred to by the schema under the field. -/
theorem exists_field_of_met (h : ref ∈ (unwrap displayName definitions field s).met) :
    ∃ payload, s.FieldIn definitions field payload ∧ payload.Mentions ref := by
  have hpayload {payload : Schema} (hfield : s.FieldIn definitions field payload)
      (h : ref ∈ (ofPayload displayName payload).met) :
      ∃ payload, s.FieldIn definitions field payload ∧ payload.Mentions ref := by
    rw [met_ofPayload] at h
    exact ⟨payload, hfield, mem_refs_iff.1 h⟩
  unfold unwrap at h
  split at h
  · split at h
    · next hp => exact hpayload (.member hp) h
    · cases h
  next hcomposed =>
  have hc : s.allOf = [] := by simpa using hcomposed
  split at h
  · next hs =>
    dsimp only at h
    split at h
    · cases h
    · next he =>
      split at h
      · next hp => exact hpayload (.behind hc hs he hp) h
      · cases h
  · next hs =>
    split at h
    · next hp => exact hpayload (.own hc hs hp) h
    · unfold ofSchema at h
      split at h <;> cases h

/-- Unwrapping looks up no definition but the one that the response refers to. -/
theorem unwrap_congr {definitions' : Table Schema}
    (h : ∀ ref ∈ s.ref, definitions'.get? (refName ref) = definitions.get? (refName ref)) :
    unwrap displayName definitions' field s = unwrap displayName definitions field s := by
  unfold unwrap
  cases hs : s.ref with
  | none => rfl
  | some ref =>
    dsimp only
    rw [h ref hs]

theorem unwrap_link (h : definitions.get? (refName ref) = some s) :
    unwrap displayName definitions field (link ref) =
      match s.property? field with
      | some payload => ofPayload displayName payload
      | none => ofEnvelope displayName (refName ref) := by
  have hcomposed : (link ref).allOf = [] := rfl
  have href : (link ref).ref = some ref := rfl
  unfold unwrap
  rw [hcomposed, href]
  simp only [h]
  rfl

/-- A reference to an envelope gives the type that the envelope gives itself, when that one has the field among
its own properties. When the envelope has it from a composition or from another definition, the reference gives the
type of the field among the properties beside it, or else the name of the envelope. -/
theorem unwrap_reference (displayName : Text → Text) (href : ref ≠ [])
    (hs : definitions.get? (refName ref) = some s) (hfield : s.FieldIn definitions field payload) :
    let named := unwrap displayName definitions field (ofFields [(.text "$ref", .text ref)])
    let inlined := unwrap displayName definitions field s
    inlined = ofPayload displayName payload ∧
      (s.allOf = [] → s.ref = none → named = inlined) ∧
      (s.allOf ≠ [] ∨ s.ref ≠ none → named =
        match s.property? field with
        | some beside => ofPayload displayName beside
        | none => ofEnvelope displayName (refName ref)) := by
  intro named inlined
  have hinlined : inlined = ofPayload displayName payload := unwrap_eq_ofPayload hfield
  have hnamed : named = unwrap displayName definitions field (link ref) := by rw [← ofFields_link href]
  refine ⟨hinlined, fun hc hnone => ?_, fun _ => hnamed.trans (unwrap_link hs)⟩
  -- the field is then found among the properties
  cases hfield with
  | own _ _ hp => rw [hnamed, hinlined, unwrap_link hs, hp]
  | member hp => rw [hc] at hp; cases hp
  | behind _ hs _ _ => rw [hnone] at hs; cases hs

/-- An envelope with the payload among its own properties. -/
theorem unwrap_reference_of_envelope :
    let displayName := ({} : Settings).displayName
    let envelope := ofFields [(.text "type", .text "object"), (.text "properties", .object
      [(.text "code", .object [(.text "type", .text "integer")]),
        (.text "data", .object [(.text "$ref", .text "#/definitions/Node")])])]
    let definitions : Table Schema := [("Envelope", envelope), ("Node", empty)]
    let named := unwrap displayName definitions "data"
      (ofFields [(.text "$ref", .text "#/definitions/Envelope")])
    let inlined := unwrap displayName definitions "data" envelope
    "#/definitions/Envelope".toList ≠ [] ∧
      definitions.get? (refName "#/definitions/Envelope") = some envelope ∧
      envelope.FieldIn definitions "data" (link "#/definitions/Node") ∧
      (inlined.typeText = some "Node".toList ∧ inlined.namedAfter = ["Node".toList]) ∧ named = inlined := by
  intro displayName envelope definitions named inlined
  have hs : definitions.get? (refName "#/definitions/Envelope") = some envelope := rfl
  have hfield : envelope.FieldIn definitions "data" (link "#/definitions/Node") := .own rfl rfl rfl
  obtain ⟨hinlined, hown, -⟩ := unwrap_reference displayName (by decide) hs hfield
  refine ⟨by decide, hs, hfield, ?_, hown rfl rfl⟩
  rw [show inlined = _ from hinlined]
  decide

/-- An envelope with the payload in a member of its composition is not unwrapped by its name. -/
theorem unwrap_reference_of_composition :
    let displayName := ({} : Settings).displayName
    let envelope := ofFields [(.text "allOf", .list [.object [(.text "properties", .object
      [(.text "data", .object [(.text "$ref", .text "#/definitions/A")])])]])]
    let definitions : Table Schema := [("N", envelope), ("A", ofFields [(.text "type", .text "object")])]
    let named := unwrap displayName definitions "data" (ofFields [(.text "$ref", .text "#/definitions/N")])
    let inlined := unwrap displayName definitions "data" envelope
    definitions.get? (refName "#/definitions/N") = some envelope ∧
      envelope.FieldIn definitions "data" (link "#/definitions/A") ∧
      (inlined.typeText = some "A".toList ∧ inlined.namedAfter = ["A".toList]) ∧
      (named.typeText = some "N".toList ∧ named.namedAfter = ["N".toList]) :=
  ⟨rfl, .member rfl, by decide, by decide⟩

end SignatureType

end ClientGen
