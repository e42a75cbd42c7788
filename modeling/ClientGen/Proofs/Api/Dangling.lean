import ClientGen.Proofs.Api.ClosedGroups
/-!
# Missing definitions

A reference may lead to no definition. The types of a model are those of definitions that are there, but the
signature of an operation is named after what its schemas refer to, there or not: only a response that is
unwrapped is looked up before it is named.
-/

namespace ClientGen

open Text

variable {settings : Settings} {aliases : Aliases} {document : Fields}

/-- A name without a definition. -/
def IsMissing (document : Fields) (definition : Text) : Prop :=
  (documentDefinitions document).get? definition = none

/-- A definition whose type belongs to a model. -/
def ApiModel.Resolves (m : ApiModel) (definition : Text) : Prop :=
  ∃ t ∈ m.allTypes, t.definition = definition

namespace SignatureType

variable {displayName : Text → Text} {definitions : Table Schema} {field : Text} {s : Schema}

/-- A type in a signature is imported under a name it is made from, and these names are among the references of
its schema and those met on the way. -/
structure IsTracked (displayName : Text → Text) (refs : List Text) (t : SignatureType) : Prop where
  imported : ∀ e ∈ t.type, ∀ n, importOf e.render = some n →
    ∃ definition ∈ t.namedAfter, importOf (displayName definition) = some n
  named : ∀ definition ∈ t.namedAfter, ∃ ref ∈ refs ++ t.met, Schema.refName ref = definition

theorem nothing_isTracked (refs : List Text) : ({} : SignatureType).IsTracked displayName refs := by
  constructor <;> simp

private theorem isTracked_of_name {type : TypeExpr} {definition : Text} {refs met : List Text}
    (ht : importOf type.render = importOf (displayName definition))
    (hd : ∃ ref ∈ refs ++ met, Schema.refName ref = definition) :
    IsTracked displayName refs ⟨some type, [definition], met⟩ where
  imported e he n hn := by
    obtain rfl := Option.some.inj he
    exact ⟨definition, List.mem_singleton_self _, ht.symm.trans hn⟩
  named d hmem := List.mem_singleton.1 hmem ▸ hd

theorem ofSchema_isTracked (displayName : Text → Text) (s : Schema) :
    (ofSchema displayName s).IsTracked displayName s.refs := by
  unfold ofSchema
  split
  · next r hr =>
    obtain ⟨⟨ref, hm, hname⟩, himport⟩ := Schema.reference?_mentioned hr
    exact isTracked_of_name himport ⟨ref, List.mem_append_left _ (Schema.mem_refs_iff.2 hm), hname⟩
  · exact nothing_isTracked s.refs

theorem ofPayload_isTracked {payload : Schema} (h : payload.ArraysAlone) (refs : List Text) :
    (ofPayload displayName payload).IsTracked displayName refs := by
  have hmet {ref : Text} (hm : payload.Mentions ref) : ref ∈ refs ++ payload.refs :=
    List.mem_append_right _ (Schema.mem_refs_iff.2 hm)
  unfold ofPayload
  split
  · next r hr =>
    obtain ⟨⟨ref, hm, hname⟩, himport⟩ := Schema.reference?_mentioned hr
    exact isTracked_of_name himport ⟨ref, hmet hm, hname⟩
  · constructor
    · intro e he n hn
      obtain rfl := Option.some.inj he
      obtain ⟨ref, href, hn⟩ := Schema.importOf_plainType h hn
      exact ⟨Schema.refName ref, by simp [href], hn⟩
    · intro definition hd
      obtain ⟨ref, href, rfl⟩ := Option.map_eq_some_iff.1 (Option.mem_toList.1 hd)
      exact ⟨ref, hmet (Schema.innermostRef_mentioned h href), rfl⟩

theorem unwrap_isTracked (h : ∀ payload, s.PayloadIn definitions payload → payload.ArraysAlone) :
    (unwrap displayName definitions field s).IsTracked displayName s.refs := by
  have hpayload {payload : Schema} (hp : s.PayloadIn definitions payload) :
      (ofPayload displayName payload).IsTracked displayName s.refs :=
    ofPayload_isTracked (h payload hp) s.refs
  -- the cases are the branches of `unwrap`
  unfold unwrap
  split
  · split
    · next payload hp =>
      obtain ⟨member, hm, hp⟩ := List.exists_of_findSome?_eq_some hp
      exact hpayload (.member hm (Schema.mem_properties_of_property? hp))
    · exact nothing_isTracked s.refs
  split
  · next ref href =>
    dsimp only
    split
    · exact nothing_isTracked s.refs
    · next envelope he =>
      split
      · next payload hp => exact hpayload (.behind href he (Schema.mem_properties_of_property? hp))
      · exact isTracked_of_name rfl ⟨ref, by simp [Schema.refs_of_ref href], rfl⟩
  · next href =>
    split
    · next payload hp => exact hpayload (.own href (Schema.mem_properties_of_property? hp))
    · exact ofSchema_isTracked displayName s

theorem unwrap_of_missing {ref : Text} (hs : s.allOf = []) (href : s.ref = some ref)
    (hd : definitions.get? (Schema.refName ref) = none) : unwrap displayName definitions field s = {} := by
  simp [unwrap, hs, href, hd]

end SignatureType

/-! ## Operations -/

def Settings.Unwraps (settings : Settings) : Prop := ∃ field ∈ settings.unwrapField, field ≠ []

/-- A document in which no array in the payload of a response is a reference besides; this is asked for only if
responses are unwrapped. -/
def HasPlainPayloads (settings : Settings) (document : Fields) : Prop :=
  settings.Unwraps → ∀ s ∈ operationSchemas settings document, ∀ payload,
    s.PayloadIn (documentDefinitions document) payload → payload.ArraysAlone

section Operations

variable {definitions : Table Schema} {group : Text} {raw : RawOperation} {parts : OperationParts} {s : Schema}

private theorem filter_unwrapField_eq_some_iff {field : Text} :
    settings.unwrapField.filter (· ≠ []) = some field ↔ settings.unwrapField = some field ∧ field ≠ [] := by
  simp [Option.filter_eq_some_iff]

theorem responseType_isTracked
    (h : settings.Unwraps → ∀ payload, s.PayloadIn definitions payload → payload.ArraysAlone) :
    (responseType settings definitions s).IsTracked settings.displayName s.refs := by
  unfold responseType
  split
  · next field hfield => exact SignatureType.unwrap_isTracked (h ⟨field, filter_unwrapField_eq_some_iff.1 hfield⟩)
  · exact SignatureType.ofSchema_isTracked settings.displayName s

/-- The type of the body of an operation. -/
def bodyType (settings : Settings) (parts : OperationParts) : SignatureType :=
  ((parts.body.map Schema.ofFields).map (SignatureType.ofSchema settings.displayName)).getD {}

/-- The type of what an operation returns. -/
def returnedType (settings : Settings) (definitions : Table Schema) (parts : OperationParts) : SignatureType :=
  ((parts.response.map Schema.ofFields).map (responseType settings definitions)).getD {}

private theorem mem_typeRefs_iff {definition : Text} :
    definition ∈ (buildOperation settings definitions group raw parts).operation.typeRefs ↔
      definition ∈ (bodyType settings parts).namedAfter ∨
        definition ∈ (returnedType settings definitions parts).namedAfter := by
  show definition ∈ (bodyType settings parts).namedAfter ++
    (returnedType settings definitions parts).namedAfter.filter (· ∉ (bodyType settings parts).namedAfter) ↔ _
  by_cases hd : definition ∈ (bodyType settings parts).namedAfter <;> simp [hd]

private theorem mem_met_iff {ref : Text} :
    ref ∈ (buildOperation settings definitions group raw parts).met ↔
      (∃ s ∈ parts.schemas, ref ∈ s.refs) ∨ ref ∈ (returnedType settings definitions parts).met := by
  have hrefs (fields : Option Fields) : ref ∈ ((fields.map Schema.ofFields).map Schema.refs).getD [] ↔
      ∃ s ∈ fields.map Schema.ofFields, ref ∈ s.refs := by
    cases fields <;> simp
  simp only [buildOperation, returnedType, List.mem_append, List.mem_flatMap, hrefs, OperationParts.mem_schemas]
  constructor
  · rintro (((⟨fields, hf, hr⟩ | ⟨s, hs, hr⟩) | ⟨s, hs, hr⟩) | hr)
    · exact .inl ⟨_, .inl ⟨fields, hf, rfl⟩, hr⟩
    · exact .inl ⟨s, .inr (.inl hs), hr⟩
    · exact .inl ⟨s, .inr (.inr hs), hr⟩
    · exact .inr hr
  · rintro (⟨s, ⟨fields, hf, rfl⟩ | hs | hs, hr⟩ | hr)
    · exact .inl (.inl (.inl ⟨fields, hf, hr⟩))
    · exact .inl (.inl (.inr ⟨s, hs, hr⟩))
    · exact .inl (.inr ⟨s, hs, hr⟩)
    · exact .inr hr

private theorem bodyType_isTracked (settings : Settings) (parts : OperationParts) :
    ∀ s ∈ parts.body.map Schema.ofFields, (bodyType settings parts).IsTracked settings.displayName s.refs := by
  intro s hs
  rw [bodyType, Option.mem_def.1 hs]
  exact SignatureType.ofSchema_isTracked settings.displayName s

private theorem returnedType_isTracked
    (h : settings.Unwraps → ∀ s ∈ parts.schemas, ∀ payload, s.PayloadIn definitions payload →
      payload.ArraysAlone) :
    ∀ s ∈ parts.response.map Schema.ofFields,
      (returnedType settings definitions parts).IsTracked settings.displayName s.refs := by
  intro s hs
  rw [returnedType, Option.mem_def.1 hs]
  exact responseType_isTracked fun hu => h hu s (OperationParts.mem_schemas.2 (.inr (.inr hs)))

theorem exists_met_of_mem_typeRefs
    (h : settings.Unwraps → ∀ s ∈ parts.schemas, ∀ payload, s.PayloadIn definitions payload →
      payload.ArraysAlone) {definition : Text}
    (hd : definition ∈ (buildOperation settings definitions group raw parts).operation.typeRefs) :
    ∃ ref ∈ (buildOperation settings definitions group raw parts).met, Schema.refName ref = definition := by
  rcases mem_typeRefs_iff.1 hd with hd | hd
  · cases hb : parts.body.map Schema.ofFields with
    | none => simp [bodyType, hb] at hd
    | some s =>
      obtain ⟨ref, href, hname⟩ := (bodyType_isTracked settings parts s hb).named definition hd
      have hmet : (bodyType settings parts).met = [] := by
        simp only [bodyType, hb, Option.map_some, Option.getD_some, SignatureType.ofSchema]
        split <;> rfl
      rw [hmet, List.append_nil] at href
      exact ⟨ref, mem_met_iff.2 (.inl ⟨s, OperationParts.mem_schemas.2 (.inr (.inl hb)), href⟩), hname⟩
  · cases hr : parts.response.map Schema.ofFields with
    | none => simp [returnedType, hr] at hd
    | some s =>
      obtain ⟨ref, href, hname⟩ := (returnedType_isTracked h s hr).named definition hd
      refine ⟨ref, mem_met_iff.2 ?_, hname⟩
      rcases List.mem_append.1 href with href | href
      · exact .inl ⟨s, OperationParts.mem_schemas.2 (.inr (.inr hr)), href⟩
      · exact .inr href

/-- A type in the signature of an operation is imported under a name that the signature is made from. -/
theorem exists_typeRef_of_importOf
    (h : settings.Unwraps → ∀ s ∈ parts.schemas, ∀ payload, s.PayloadIn definitions payload →
      payload.ArraysAlone) {type n : Text}
    (ht : let o := (buildOperation settings definitions group raw parts).operation
      o.bodyType = some type ∨ o.responseType = some type) (hn : importOf type = some n) :
    ∃ definition ∈ (buildOperation settings definitions group raw parts).operation.typeRefs,
      importOf (settings.displayName definition) = some n := by
  rcases ht with ht | ht
  · obtain ⟨e, he, rfl⟩ := Option.map_eq_some_iff.1 ht
    cases hb : parts.body.map Schema.ofFields with
    | none => simp [hb] at he
    | some s =>
      obtain ⟨definition, hd, hname⟩ := (bodyType_isTracked settings parts s hb).imported e he n hn
      exact ⟨definition, mem_typeRefs_iff.2 (.inl hd), hname⟩
  · obtain ⟨e, he, rfl⟩ := Option.map_eq_some_iff.1 ht
    cases hr : parts.response.map Schema.ofFields with
    | none => simp [hr] at he
    | some s =>
      obtain ⟨definition, hd, hname⟩ := (returnedType_isTracked h s hr).imported e he n hn
      exact ⟨definition, mem_typeRefs_iff.2 (.inr hd), hname⟩

/-- A response to be unwrapped that refers to a missing definition leaves the signature to the body. -/
theorem buildOperation_of_missing (hu : settings.Unwraps) {response : Fields} (hr : parts.response = some response)
    (hs : (Schema.ofFields response).allOf = []) {ref : Text} (href : (Schema.ofFields response).ref = some ref)
    (hd : definitions.get? (Schema.refName ref) = none) :
    let o := (buildOperation settings definitions group raw parts).operation
    o.responseType = none ∧ o.typeRefs = (bodyType settings parts).namedAfter := by
  obtain ⟨field, hfield⟩ := hu
  have hreturned : returnedType settings definitions parts = {} := by
    simp only [returnedType, hr, Option.map_some, Option.getD_some, responseType,
      filter_unwrapField_eq_some_iff.2 hfield]
    exact SignatureType.unwrap_of_missing hs href hd
  constructor
  · show (returnedType settings definitions parts).typeText = none
    rw [hreturned]
    rfl
  · show (bodyType settings parts).namedAfter ++ (returnedType settings definitions parts).namedAfter.filter _ = _
    rw [hreturned]
    exact List.append_nil _

private theorem mem_bodyType_namedAfter {definition : Text} (hd : definition ∈ (bodyType settings parts).namedAfter) :
    ∃ body ∈ parts.body, ∃ r ∈ (Schema.ofFields body).reference? settings.displayName,
      r.definition = definition := by
  cases hb : parts.body with
  | none => simp [bodyType, hb] at hd
  | some body =>
    simp only [bodyType, hb, Option.map_some, Option.getD_some, SignatureType.ofSchema] at hd
    split at hd
    · next r hr => exact ⟨body, rfl, r, hr, (List.mem_singleton.1 hd).symm⟩
    · cases hd

end Operations

/-! ## Models -/

private theorem ApiModel.exists_raw {group : Text × List Operation}
    (hg : group ∈ (ofDocument settings aliases document).operations) {o : Operation} (ho : o ∈ group.2) :
    ∃ raw ∈ acceptedOperations settings document,
      let b := buildOperation settings (documentDefinitions document)
        (aliases.groupOf (firstTag raw.operation)) raw ((Dialect.ofDocument document).parts document raw)
      b ∈ builtOperations settings aliases document ∧ b.operation = o := by
  obtain ⟨b, hb, rfl⟩ := List.mem_map.1 (Table.mem_of_mem_groupBy hg o ho).1
  obtain ⟨raw, hraw, rfl⟩ := List.mem_map.1 hb
  exact ⟨raw, hraw, hb, rfl⟩

theorem ApiModel.resolves_iff {definition : Text} :
    (ofDocument settings aliases document).Resolves definition ↔
      ∃ s, Reached (documentDefinitions document)
        ((builtOperations settings aliases document).flatMap BuiltOperation.met) definition s := by
  simp only [Resolves, perm_allTypes.mem_iff, mem_closure_iff]
  constructor
  · rintro ⟨_, ⟨name, s, hs, rfl⟩, rfl⟩
    exact ⟨s, hs⟩
  · rintro ⟨s, hs⟩
    exact ⟨_, ⟨definition, s, hs, rfl⟩, rfl⟩

theorem ApiModel.not_resolves_of_isMissing {definition : Text} (h : IsMissing document definition) :
    ¬(ofDocument settings aliases document).Resolves definition := by
  intro hr
  obtain ⟨s, hs⟩ := resolves_iff.1 hr
  exact Option.some_ne_none s (hs.get?_eq.symm.trans h)

namespace HasPlainPayloads

variable {group : Text × List Operation} {raw : RawOperation}

private theorem of_accepted (h : HasPlainPayloads settings document)
    (hraw : raw ∈ acceptedOperations settings document) :
    settings.Unwraps → ∀ s ∈ ((Dialect.ofDocument document).parts document raw).schemas, ∀ payload,
      s.PayloadIn (documentDefinitions document) payload → payload.ArraysAlone :=
  fun hu s hs => h hu s (List.mem_flatMap.2 ⟨raw, hraw, hs⟩)

theorem resolves_of_typeRef (h : HasPlainPayloads settings document)
    (hg : group ∈ (ApiModel.ofDocument settings aliases document).operations) {o : Operation} (ho : o ∈ group.2)
    {definition : Text} (hd : definition ∈ o.typeRefs) (hdefined : ¬IsMissing document definition) :
    (ApiModel.ofDocument settings aliases document).Resolves definition := by
  obtain ⟨raw, hraw, hb, rfl⟩ := ApiModel.exists_raw hg ho
  obtain ⟨ref, href, rfl⟩ := exists_met_of_mem_typeRefs (h.of_accepted hraw) hd
  obtain ⟨s, hs⟩ := Option.ne_none_iff_exists'.1 hdefined
  exact ApiModel.resolves_iff.2 ⟨s, .root (List.mem_flatMap.2 ⟨_, hb, href⟩) hs⟩

theorem exists_origin_of_imported (h : HasPlainPayloads settings document)
    (hg : group ∈ (ApiModel.ofDocument settings aliases document).operations) {name : Text}
    (hname : name ∈ importedTypes group.2) :
    (∃ o ∈ group.2, o.paramsType = some name) ∨
      ∃ o ∈ group.2, ∃ definition ∈ o.typeRefs, importOf (settings.displayName definition) = some name := by
  obtain ⟨o, ho, type, ht, himport⟩ := mem_importedTypes.1 hname
  obtain ⟨type?, hmem, hnamed⟩ := List.mem_filterMap.1 ht
  obtain ⟨htype, -⟩ := Operation.named?_eq_some_iff.1 hnamed
  rcases List.mem_cons.1 hmem with rfl | hmem
  · -- the interface of the query parameters stands under its own name
    have hidentifier := (ApiModel.isBuilt hg ho).isIdentifier_paramsType htype
    obtain rfl := eq_of_importOf_identifier hidentifier himport
    exact .inl ⟨o, ho, htype⟩
  · obtain ⟨raw, hraw, -, rfl⟩ := ApiModel.exists_raw hg ho
    simp only [List.mem_cons, List.not_mem_nil, or_false] at hmem
    have hsignature := hmem.imp (fun h => h ▸ htype) fun h => h ▸ htype
    exact .inr ⟨_, ho, exists_typeRef_of_importOf (h.of_accepted hraw) hsignature himport⟩

end HasPlainPayloads

/-- What the signatures of a model are named after is resolved exactly if it is defined, and their imports are made
from these names. A response to be unwrapped is looked up, so that it adds no missing name of its own. -/
theorem typeRefs_resolved_iff_defined (aliases : Aliases) (h : HasPlainPayloads settings document) :
    let model := ApiModel.ofDocument settings aliases document
    ∀ group ∈ model.operations,
      (∀ o ∈ group.2, ∀ definition ∈ o.typeRefs, model.Resolves definition ↔ ¬IsMissing document definition) ∧
      (∀ name ∈ importedTypes group.2, (∃ o ∈ group.2, o.paramsType = some name) ∨
        ∃ o ∈ group.2, ∃ definition ∈ o.typeRefs, importOf (settings.displayName definition) = some name) ∧
      ∀ o ∈ group.2, ∀ response ∈ o.responseSchema, settings.Unwraps → (Schema.ofFields response).allOf = [] →
        ∀ ref ∈ (Schema.ofFields response).ref, IsMissing document (Schema.refName ref) →
          o.responseType = none ∧ ∀ definition ∈ o.typeRefs,
            ∃ body ∈ o.bodySchema, ∃ r ∈ (Schema.ofFields body).reference? settings.displayName,
              r.definition = definition := by
  intro model group hg
  refine ⟨?_, ?_, ?_⟩
  · intro o ho definition hd
    constructor
    · intro hr hmissing
      exact ApiModel.not_resolves_of_isMissing hmissing hr
    · exact h.resolves_of_typeRef hg ho hd
  · intro name hname
    exact h.exists_origin_of_imported hg hname
  · intro o ho response hresponse hu hs ref href hmissing
    obtain ⟨raw, -, -, rfl⟩ := ApiModel.exists_raw hg ho
    obtain ⟨htype, hrefs⟩ := buildOperation_of_missing hu hresponse hs href hmissing
    refine ⟨htype, ?_⟩
    intro definition hd
    rw [hrefs] at hd
    exact mem_bodyType_namedAfter hd

/-- A body that nothing defines beside a response that is found, and a response that nothing defines. -/
theorem typeRefs_resolved_iff_defined_of_users :
    let ref (name : Text) : Value := .object [(.text "$ref", .text ("#/definitions/" ++ name))]
    let response (name : Text) : Text × Value :=
      ("responses", .object [(.text "200", .object [(.text "schema", ref name)])])
    let body : Text × Value :=
      ("parameters", .list [.object [(.text "in", .text "body"), (.text "schema", ref "Draft")]])
    let operation (entries : List (Text × Value)) : Value := .object (entries.map fun (k, v) => (.text k, v))
    let document : Fields :=
      [(.text "paths", .object [(.text "/users", .object
          [(.text "post", operation [body, response "User"]), (.text "get", operation [response "Page"])])]),
        (.text "definitions", .object [(.text "User", .object [(.text "type", .text "object")])])]
    let model := ApiModel.ofDocument {} {} document
    HasPlainPayloads {} document ∧ ∃ group ∈ model.operations,
      (∃ o ∈ group.2, o.typeRefs = ["Draft".toList, "User".toList] ∧ ¬model.Resolves "Draft" ∧
        model.Resolves "User") ∧
      ∃ o ∈ group.2, (∃ response, o.responseSchema = some response) ∧ o.responseType = none := by
  intro ref response body operation document model
  let link (name : Text) : Schema := { Schema.empty with ref := some ("#/definitions/" ++ name) }
  have hdefinitions : documentDefinitions document =
      [("User".toList, { Schema.empty with tag := some "object" })] := rfl
  have hschemas : operationSchemas {} document = [link "Page", link "Draft", link "User"] := rfl
  have hplain : HasPlainPayloads {} document := by
    intro hu s hs payload hp
    rw [hschemas] at hs
    have hlink : s.allOf = [] ∧ s.ref ≠ none := by
      simp only [List.mem_cons, List.not_mem_nil, or_false] at hs
      rcases hs with rfl | rfl | rfl <;> exact ⟨rfl, Option.some_ne_none _⟩
    cases hp with
    | member hm _ => exact absurd hm (by simp [hlink.1])
    | own href _ => exact absurd href hlink.2
    | behind href he hp =>
      -- the only definition has no properties
      have hmem := Table.mem_of_get? he
      rw [hdefinitions, List.mem_singleton] at hmem
      obtain ⟨-, rfl⟩ := Prod.mk.inj hmem
      cases hp
  obtain ⟨get, post, hops, hget, hpost⟩ : ∃ get post, model.operations = [("default".toList, [get, post])] ∧
      (get.responseSchema = some [(.text "$ref", .text "#/definitions/Page")]) ∧
      post.typeRefs = ["Draft".toList, "User".toList] := ⟨_, _, rfl, rfl, rfl⟩
  have hg : ("default".toList, [get, post]) ∈ model.operations := by rw [hops]; exact List.mem_singleton_self _
  obtain ⟨hresolved, -, hunwrapped⟩ := typeRefs_resolved_iff_defined {} hplain _ hg
  have hresolved := hresolved post (by simp)
  rw [hpost] at hresolved
  refine ⟨hplain, _, hg, ⟨post, by simp, hpost, ?_, ?_⟩, get, by simp, ⟨_, hget⟩, ?_⟩
  · intro h
    exact (hresolved "Draft" (by simp)).1 h rfl
  · exact (hresolved "User" (by simp)).2 (Option.some_ne_none _)
  · exact (hunwrapped get (by simp) _ hget ⟨"data", rfl, by decide⟩ rfl _ rfl rfl).1

/-- The signature and the imports name a body that nothing defines. -/
theorem missing_body_is_named :
    let schema : Value := .object [(.text "$ref", .text "#/definitions/Missing")]
    let parameter : Value := .object [(.text "in", .text "body"), (.text "schema", schema)]
    let operation : Value := .object [(.text "parameters", .list [parameter])]
    let document : Fields := [(.text "paths", .object [(.text "/a", .object [(.text "post", operation)])])]
    let model := ApiModel.ofDocument {} {} document
    ∃ group ∈ model.operations, ∃ o ∈ group.2, o.bodyType = some "Missing".toList ∧
      "Missing".toList ∈ o.typeRefs ∧ ¬model.Resolves "Missing" ∧
        "Missing".toList ∈ importedTypes group.2 := by
  intro schema parameter operation document model
  obtain ⟨post, hops, hbody, hrefs⟩ : ∃ post, model.operations = [("default".toList, [post])] ∧
      post.bodyType = some "Missing".toList ∧ post.typeRefs = ["Missing".toList] := ⟨_, rfl, rfl, rfl⟩
  have hg : ("default".toList, [post]) ∈ model.operations := by rw [hops]; exact List.mem_singleton_self _
  refine ⟨_, hg, post, List.mem_singleton_self _, hbody, by simp [hrefs], ?_, ?_⟩
  · exact ApiModel.not_resolves_of_isMissing rfl
  · refine mem_importedTypes.2 ⟨post, List.mem_singleton_self _, "Missing", ?_, by decide⟩
    simp [Operation.signatureTypes, hbody, Operation.named?]

end ClientGen
