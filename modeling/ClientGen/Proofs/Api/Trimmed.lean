import ClientGen.Proofs.Api.ClosedGroups
import ClientGen.Proofs.Api.Conversion
import ClientGen.Proofs.Api.NamedEnvelopes
/-!
# Documents without what is left out

Operations whose category is not accepted, and definitions that the accepted operations do not lead to, have no
influence on the model: a document without them has the same one.
-/

namespace ClientGen

open Text Conversion

variable {settings : Settings} {aliases : Aliases} {document fields : Fields} {goneOperation : Text → Text → Bool}
  {gone : List Text}

/-! ## Definitions that are referred to -/

namespace Schema

/-- A reference stands in the schema or in its parts, be it beside another one. -/
inductive Refers : Schema → Text → Prop
  | here {s : Schema} {ref : Text} (h : s.ref = some ref) : Refers s ref
  | part {s c : Schema} {ref : Text} (hc : c ∈ s.parts) (h : Refers c ref) : Refers s ref

variable {s payload : Schema} {ref : Text}

theorem Mentions.refers (h : s.Mentions ref) : s.Refers ref := by
  induction h with
  | here h => exact .here h
  | part _ hc _ ih => exact .part hc ih

theorem RefsAlone.mentions_of_refers (hs : s.RefsAlone) (h : s.Refers ref) : s.Mentions ref := by
  induction h with
  | here h => exact .here h
  | part hc _ ih =>
    refine .part (hs.ref_eq_none fun hplain => ?_) hc (ih (hs.of_part hc))
    rcases mem_parts.1 hc with ⟨p, hp, -⟩ | hi | hm | ha
    · simp [hplain.properties.2] at hp
    · simp [hplain.items] at hi
    · simp [hplain.allOf] at hm
    · simp [hplain.additional.1] at ha

/-- What the schema under a field refers to stands in the envelope, or in the definition that it refers to. -/
theorem FieldIn.refers {definitions : Table Schema} {field : Text} (h : s.FieldIn definitions field payload)
    (hr : payload.Refers ref) : s.Refers ref ∨ ∃ own envelope, s.ref = some own ∧
      definitions.get? (refName own) = some envelope ∧ envelope.Refers ref := by
  have hproperty {c : Schema} (hp : c.property? field = some payload) : c.Refers ref :=
    .part (mem_parts.2 (.inl (List.mem_map.1 (mem_properties_of_property? hp)))) hr
  cases h with
  | own _ _ hp => exact .inl (hproperty hp)
  | member hp =>
    obtain ⟨member, hm, hp⟩ := List.exists_of_findSome?_eq_some hp
    exact .inl (.part (mem_parts.2 (.inr (.inr (.inl hm)))) (hproperty hp))
  | behind _ hs he hp => exact .inr ⟨_, _, hs, he, hproperty hp⟩

end Schema

/-- The names that the operations lead to: those that their schemas refer to, and those that the definitions of such
names refer to in turn. -/
inductive IsReachable (settings : Settings) (document : Fields) : Text → Prop
  | root {s : Schema} {ref : Text} (hs : s ∈ operationSchemas settings document) (hr : s.Refers ref) :
    IsReachable settings document (Schema.refName ref)
  | step {name ref : Text} {s : Schema} (h : IsReachable settings document name)
    (hs : (documentDefinitions document).get? name = some s) (hr : s.Refers ref) :
    IsReachable settings document (Schema.refName ref)

theorem isReachable_of_met {b : BuiltOperation} (hb : b ∈ builtOperations settings aliases document) {ref : Text}
    (href : ref ∈ b.met) : IsReachable settings document (Schema.refName ref) := by
  obtain ⟨raw, hraw, rfl⟩ := List.mem_map.1 hb
  have hroot {s : Schema} (hs : s ∈ ((Dialect.ofDocument document).parts document raw).schemas) :
      s ∈ operationSchemas settings document := List.mem_flatMap.2 ⟨raw, hraw, hs⟩
  generalize (Dialect.ofDocument document).parts document raw = parts at href hroot
  simp only [buildOperation, List.mem_append, List.mem_flatMap] at href
  rcases href with ((⟨fields, hf, href⟩ | href) | href) | href
  · exact .root (hroot (OperationParts.mem_schemas.2 (.inl ⟨fields, hf, rfl⟩))) (Schema.mem_refs_iff.1 href).refers
  · cases hbody : parts.body.map Schema.ofFields with
    | none => simp [hbody] at href
    | some s =>
      rw [hbody] at href
      exact .root (hroot (OperationParts.mem_schemas.2 (.inr (.inl hbody)))) (Schema.mem_refs_iff.1 href).refers
  -- the response, as it stands and when it is unwrapped
  all_goals
    cases hresponse : parts.response.map Schema.ofFields with
    | none => simp [hresponse] at href
    | some s => ?_
    rw [hresponse] at href
    have hs := hroot (OperationParts.mem_schemas.2 (.inr (.inr hresponse)))
  · exact .root hs (Schema.mem_refs_iff.1 href).refers
  · change ref ∈ (responseType settings _ s).met at href
    unfold responseType at href
    split at href
    · obtain ⟨payload, hfield, hr⟩ := SignatureType.exists_field_of_met href
      rcases hfield.refers hr.refers with hr | ⟨own, envelope, hown, he, hr⟩
      · exact .root hs hr
      · exact .step (.root hs (.here hown)) he hr
    · unfold SignatureType.ofSchema at href
      split at href <;> cases href

theorem ApiModel.isReachable_of_mem_allTypes {t : NamedType}
    (ht : t ∈ (ofDocument settings aliases document).allTypes) : IsReachable settings document t.definition := by
  obtain ⟨name, s, hs, rfl⟩ := mem_closure_iff.1 (perm_allTypes.mem_iff.1 ht)
  change IsReachable settings document name
  induction hs with
  | root hr _ =>
    obtain ⟨b, hb, hr⟩ := List.mem_flatMap.1 hr
    exact isReachable_of_met hb hr
  | step hs hm _ ih =>
    have hmem := perm_allTypes.mem_iff.2 (mem_closure_iff.2 ⟨_, _, hs, rfl⟩)
    exact .step (ih hmem) hs.get?_eq hm.refers

/-- Where every reference stands alone, the definitions that are reachable are those to which the references lead that
are met. -/
theorem isReachable_iff (h : ∀ s, IsUsed settings document s → s.RefsAlone) {name : Text} {s : Schema}
    (hs : (documentDefinitions document).get? name = some s) :
    IsReachable settings document name ↔ ReachedDefinition settings document name s := by
  constructor
  · intro hr
    induction hr generalizing s with
    | root hmem hr =>
      have hm := (h _ (.operation hmem)).mentions_of_refers hr
      exact .root (List.mem_flatMap.2 ⟨_, hmem, Schema.mem_refs_iff.2 hm⟩) hs
    | step _ hget hr ih =>
      have hreached := ih hget
      exact .step hreached ((h _ (.definition hreached)).mentions_of_refers hr) hs
  · intro hr
    clear hs
    induction hr with
    | root hr _ =>
      obtain ⟨s, hmem, hr⟩ := List.mem_flatMap.1 hr
      exact .root hmem (Schema.mem_refs_iff.1 hr).refers
    | step hr hm _ ih => exact .step ih hr.get?_eq hm.refers

/-! ## Trimmed documents -/

/-- The entries with another value under a key. -/
def Fields.change (key : Text) (f : Value → Value) (fields : Fields) : Fields :=
  fields.mapValues fun k v => if k = .text key then f v else v

theorem Fields.get?_change (key : Text) (f : Value → Value) (t : Text) (fields : Fields) :
    get? t (fields.change key f) = if t = key then (get? t fields).map f else get? t fields := by
  rw [change, get?_mapValues]
  by_cases h : t = key
  · simp [h]
  · simp [h]

theorem Fields.child?_change (key : Text) (f : Fields → Fields) (t : Text) (fields : Fields) :
    (fields.change key (onObject f)).child? t = if t = key then (fields.child? t).map f else fields.child? t := by
  unfold child?
  rw [get?_change]
  split
  · cases get? t fields with
    | none => rfl
    | some v => exact fields?_onObject f v
  · rfl

/-- The object of a path without some of its operations. -/
def trimItem (gone : Text → Bool) (item : Fields) : Fields := item.without (Naming.httpMethods.filter gone)

/-- The objects of paths without some of their operations. -/
def trimPaths (gone : Text → Text → Bool) (paths : Fields) : Fields :=
  paths.mapValues fun key v =>
    match key with
    | .text path => onObject (trimItem (gone path)) v
    | _ => v

/-- A document of a dialect without some of its definitions. -/
def Dialect.trimDefinitions (gone : List Text) (dialect : Dialect) (document : Fields) : Fields :=
  match dialect with
  | .openapi3 => document.change "components" (onObject (·.change "schemas" (onObject (·.without gone))))
  | .swagger2 => document.change "definitions" (onObject (·.without gone))

/-- A document without some of its operations, told by path and method, and without some of its definitions. -/
def trim (goneOperation : Text → Text → Bool) (gone : List Text) (document : Fields) : Fields :=
  (Dialect.ofDocument document).trimDefinitions gone (document.change "paths" (onObject (trimPaths goneOperation)))

theorem get?_trim {key : Text} (h : key ∉ ["paths".toList, "components".toList, "definitions".toList]) :
    (trim goneOperation gone document).get? key = document.get? key := by
  simp only [List.mem_cons, List.not_mem_nil, or_false, not_or] at h
  obtain ⟨hpaths, hcomponents, hdefinitions⟩ := h
  unfold trim Dialect.trimDefinitions
  split <;> simp only [Fields.get?_change, hpaths, hcomponents, hdefinitions, if_false]

theorem get?_trim_paths : (trim goneOperation gone document).get? "paths" =
    (document.get? "paths").map (onObject (trimPaths goneOperation)) := by
  have hcomponents : "paths".toList ≠ "components".toList := by decide
  have hdefinitions : "paths".toList ≠ "definitions".toList := by decide
  unfold trim Dialect.trimDefinitions
  split <;> simp only [Fields.get?_change, hcomponents, hdefinitions, if_false, if_true]

theorem dialect_trim : Dialect.ofDocument (trim goneOperation gone document) = Dialect.ofDocument document := by
  unfold Dialect.ofDocument Fields.text?
  rw [get?_trim (by decide)]

/-! ### Definitions -/

private theorem definitionSchemas_cons (k : Scalar) (v : Value) (definitions : Fields) :
    definitionSchemas ((k, v) :: definitions) =
      match k, Schema.ofObject? v with
      | .text name, some s => (name, s) :: definitionSchemas definitions
      | _, _ => definitionSchemas definitions := rfl

private theorem definitionSchemas_without (gone : List Text) (definitions : Fields) :
    definitionSchemas (definitions.without gone) = (definitionSchemas definitions).filter (·.1 ∉ gone) := by
  unfold Fields.without
  induction definitions with
  | nil => rfl
  | cons e definitions ih =>
    obtain ⟨k, v⟩ := e
    rw [List.filter_cons, definitionSchemas_cons]
    cases k with
    | text name =>
      cases hv : Schema.ofObject? v with
      | none =>
        dsimp only
        split
        · rw [definitionSchemas_cons, hv]
          exact ih
        · exact ih
      | some s =>
        dsimp only
        rw [List.filter_cons]
        by_cases hgone : name ∈ gone
        · simpa [hgone] using ih
        · simpa [hgone, definitionSchemas_cons, hv] using ih
    | _ => simpa [definitionSchemas_cons] using ih

private theorem definitions_trim : (Dialect.ofDocument document).definitions (trim goneOperation gone document) =
    ((Dialect.ofDocument document).definitions document).without gone := by
  have hcomponents : "components".toList ≠ "paths".toList := by decide
  have hdefinitions : "definitions".toList ≠ "paths".toList := by decide
  unfold trim
  cases Dialect.ofDocument document with
  | swagger2 =>
    simp only [Dialect.definitions, Dialect.trimDefinitions, Fields.child?_change, hdefinitions, if_true, if_false]
    cases document.child? "definitions" <;> rfl
  | openapi3 =>
    simp only [Dialect.definitions, Dialect.trimDefinitions, Fields.child?_change, hcomponents, if_true, if_false]
    cases document.child? "components" with
    | none => rfl
    | some components =>
      simp only [Option.map_some, Option.bind_some, Fields.child?_change, if_true]
      cases components.child? "schemas" <;> rfl

theorem documentDefinitions_trim : documentDefinitions (trim goneOperation gone document) =
    (documentDefinitions document).filter (·.1 ∉ gone) := by
  unfold documentDefinitions
  rw [dialect_trim, definitions_trim, definitionSchemas_without]

/-! ### Operations -/

def trimRaw (gone : Text → Text → Bool) (raw : RawOperation) : RawOperation :=
  { raw with item := trimItem (gone raw.path) raw.item }

private theorem get?_trimItem (gone : Text → Bool) (item : Fields) {method : Text} (h : method ∈ Naming.httpMethods) :
    (trimItem gone item).get? method = if gone method then none else item.get? method := by
  rw [trimItem, Fields.get?_without]
  simp [h]

private theorem operationsOfItem_trimItem (gone : Text → Text → Bool) (path : Text) (item : Fields) :
    operationsOfItem path (trimItem (gone path) item) =
      ((operationsOfItem path item).filter fun raw => !gone raw.path raw.method).map (trimRaw gone) := by
  unfold operationsOfItem
  rw [List.filter_filterMap, List.map_filterMap]
  refine List.filterMap_congr fun method hm => ?_
  rw [get?_trimItem _ _ hm]
  by_cases hgone : gone path method = true
  · rw [if_pos hgone]
    cases (item.get? method).bind Value.fields? with
    | none => rfl
    | some operation => rw [Option.map_some, Option.filter_some_neg (by simpa using hgone)]; rfl
  · rw [if_neg hgone]
    cases (item.get? method).bind Value.fields? with
    | none => rfl
    | some operation => rw [Option.map_some, Option.map_some, Option.filter_some_pos (by simpa using hgone)]; rfl

/-- What is left of the object under a path. -/
private def trimUnder (gone : Text → Text → Bool) (key : Scalar) (item : Fields) : Fields :=
  match key with
  | .text path => trimItem (gone path) item
  | _ => item

private theorem pathItems_trim : pathItems (trim goneOperation gone document) =
    (pathItems document).map fun e => (e.1, trimUnder goneOperation e.1 e.2) := by
  refine pathItems_of_paths (fun key v => ?_) get?_trim_paths
  cases key with
  | text path => exact fields?_onObject (trimItem (goneOperation path)) v
  | _ => exact Option.map_id'.symm

theorem rawOperations_trim : rawOperations (trim goneOperation gone document) =
    ((rawOperations document).filter fun raw => !goneOperation raw.path raw.method).map (trimRaw goneOperation) := by
  unfold rawOperations
  rw [pathItems_trim, List.flatMap_map, List.filter_flatMap, List.map_flatMap]
  refine List.flatMap_congr fun e _ => ?_
  obtain ⟨key, item⟩ := e
  cases key with
  | text path => exact operationsOfItem_trimItem goneOperation path item
  | _ => rfl

theorem acceptedOperations_trim (h : ∀ raw ∈ rawOperations document, goneOperation raw.path raw.method = true →
      settings.acceptsTag (firstTag raw.operation) = false) :
    acceptedOperations settings (trim goneOperation gone document) =
      (acceptedOperations settings document).map (trimRaw goneOperation) := by
  unfold acceptedOperations
  rw [rawOperations_trim, List.filter_map, List.filter_filter]
  refine congrArg _ (List.filter_congr fun raw hraw => ?_)
  have hraw := h raw hraw
  rw [Function.comp_apply, trimRaw]
  cases hgone : goneOperation raw.path raw.method with
  | false => simp
  | true => simp [hraw hgone]

/-- An operation whose parameters, request body and responses stand where they are used. -/
structure RawOperation.IsInline (raw : RawOperation) : Prop where
  parameters : ∀ p ∈ parameterObjects raw.item ++ parameterObjects raw.operation, Pointer.ref? p = none
  body : ∀ b ∈ raw.operation.child? "requestBody", Pointer.ref? b = none
  responses : ∀ r ∈ responseObjects raw.operation, Pointer.ref? r = none

private theorem resolve_of_inline {v : Value} (h : ∀ p ∈ v.fields?, Pointer.ref? p = none) :
    Pointer.resolve document v = v.fields? := by
  cases hv : v.fields? with
  | none => rw [Pointer.resolve, Pointer.follow, hv]
  | some p => exact Pointer.resolve_inline hv (h p hv)

namespace RawOperation.IsInline

variable {raw : RawOperation} (h : raw.IsInline)
include h

private theorem successResponse?_eq (document document' : Fields) :
    successResponse? document raw.operation = successResponse? document' raw.operation := by
  unfold successResponse?
  refine Option.bind_congr fun v hv => ?_
  obtain ⟨⟨number, text⟩, -, hv⟩ := List.exists_of_findSome?_eq_some hv
  have hinline : ∀ r ∈ v.fields?, Pointer.ref? r = none := by
    intro r hr
    rcases Option.or_eq_some_iff.1 hv with hv | ⟨-, hv⟩
    · exact ref?_of_present? h.responses hv hr
    · exact ref?_of_present? h.responses hv hr
  rw [resolve_of_inline hinline, resolve_of_inline hinline]

private theorem requestBody_eq (document : Fields) :
    (raw.operation.get? "requestBody").bind (Pointer.resolve document) = raw.operation.child? "requestBody" := by
  refine Option.bind_congr fun v hv => resolve_of_inline fun b hb => h.body b ?_
  rw [Fields.child?, hv]
  exact hb

omit h in
private theorem parameterList_trimRaw (gone : Text → Text → Bool) :
    parameterList (trimRaw gone raw).item = parameterList raw.item := by
  have hmethod : "parameters".toList ∉ Naming.httpMethods := by decide
  have hget : (trimRaw gone raw).item.get? "parameters" = raw.item.get? "parameters" := by
    rw [trimRaw, trimItem, Fields.get?_without, if_neg fun hmem => hmethod (List.mem_filter.1 hmem).1]
  unfold parameterList
  rw [hget]

theorem parts_eq (dialect : Dialect) (document document' : Fields) (gone : Text → Text → Bool) :
    dialect.parts document (trimRaw gone raw) = dialect.parts document' raw := by
  have hoperation : (trimRaw gone raw).operation = raw.operation := rfl
  unfold Dialect.parts
  rw [parameterList_trimRaw, hoperation]
  cases dialect with
  | swagger2 =>
    unfold swaggerParts
    dsimp only
    rw [resolved_inline h.parameters, resolved_inline h.parameters, h.successResponse?_eq document document']
  | openapi3 =>
    unfold openapiParts
    dsimp only
    rw [resolved_inline h.parameters, resolved_inline h.parameters, h.successResponse?_eq document document',
      h.requestBody_eq document, h.requestBody_eq document']

end RawOperation.IsInline

/-! ## Models -/

theorem buildOperation_of_responseType {definitions definitions' : Table Schema} {group : Text} {raw : RawOperation}
    {parts : OperationParts} (h : ∀ s ∈ parts.response.map Schema.ofFields,
      responseType settings definitions' s = responseType settings definitions s) :
    buildOperation settings definitions' group raw parts = buildOperation settings definitions group raw parts := by
  have hreturned : (parts.response.map Schema.ofFields).map (responseType settings definitions') =
      (parts.response.map Schema.ofFields).map (responseType settings definitions) := Option.map_congr h
  unfold buildOperation
  dsimp only
  rw [hreturned]

theorem mem_met_of_response {definitions : Table Schema} {group : Text} {raw : RawOperation} {parts : OperationParts}
    {s : Schema} (hs : s ∈ parts.response.map Schema.ofFields) {ref : Text} (href : ref ∈ s.refs) :
    ref ∈ (buildOperation settings definitions group raw parts).met := by
  have hs : parts.response.map Schema.ofFields = some s := hs
  simp [buildOperation, hs, href]

section Model

variable (hinline : ∀ raw ∈ acceptedOperations settings document, raw.IsInline)
  (hrejected : ∀ raw ∈ rawOperations document, goneOperation raw.path raw.method = true →
    settings.acceptsTag (firstTag raw.operation) = false)
  (hkept : ∀ t ∈ (ApiModel.ofDocument settings aliases document).allTypes, t.definition ∉ gone)

include hkept in
private theorem get?_trim_of_reached {name : Text} {s : Schema} (hs : Reached (documentDefinitions document)
      ((builtOperations settings aliases document).flatMap BuiltOperation.met) name s) :
    (documentDefinitions (trim goneOperation gone document)).get? name = some s := by
  have hmem := ApiModel.perm_allTypes.mem_iff.2 (mem_closure_iff.2 ⟨name, s, hs, rfl⟩)
  have hgone : name ∉ gone := hkept _ hmem
  rw [documentDefinitions_trim, Table.get?_filter (· ∉ gone), if_pos (decide_eq_true hgone), hs.get?_eq]

private theorem get?_trim_of_none {name : Text} (h : (documentDefinitions document).get? name = none) :
    (documentDefinitions (trim goneOperation gone document)).get? name = none := by
  rw [documentDefinitions_trim, Table.get?_filter (· ∉ gone), h, ite_self]

include hinline hrejected hkept

theorem builtOperations_trim :
    builtOperations settings aliases (trim goneOperation gone document) =
      builtOperations settings aliases document := by
  unfold builtOperations
  rw [acceptedOperations_trim hrejected, List.map_map, dialect_trim]
  refine List.map_congr_left fun raw hraw => ?_
  rw [Function.comp_apply, (hinline raw hraw).parts_eq _ _ document]
  change buildOperation settings (documentDefinitions (trim goneOperation gone document)) _ raw _ = _
  refine buildOperation_of_responseType fun s hs => ?_
  unfold responseType
  split
  · refine SignatureType.unwrap_congr fun ref href => ?_
    cases hget : (documentDefinitions document).get? (Schema.refName ref) with
    | none => exact get?_trim_of_none hget
    | some envelope =>
      have hmet : ref ∈ (builtOperations settings aliases document).flatMap BuiltOperation.met :=
        List.mem_flatMap.2 ⟨_, List.mem_map_of_mem hraw, mem_met_of_response hs (Schema.mem_refs_iff.2 (.here href))⟩
      exact get?_trim_of_reached hkept (.root hmet hget)
  · rfl

theorem ApiModel.ofDocument_trim_of_kept :
    ofDocument settings aliases (trim goneOperation gone document) = ofDocument settings aliases document := by
  have hbuilt := builtOperations_trim hinline hrejected hkept
  have hclosure : closure settings.displayName (documentDefinitions (trim goneOperation gone document))
        ((builtOperations settings aliases (trim goneOperation gone document)).flatMap BuiltOperation.met) =
      closure settings.displayName (documentDefinitions document)
        ((builtOperations settings aliases document).flatMap BuiltOperation.met) := by
    rw [hbuilt]
    exact closure_congr (fun name s hs => get?_trim_of_reached hkept hs) fun name h => get?_trim_of_none h
  have hmodel (d : Fields) : ofDocument settings aliases d =
      { operations := Table.groupBy Operation.group ((builtOperations settings aliases d).map BuiltOperation.operation)
        types := Table.groupBy NamedType.module (closure settings.displayName (documentDefinitions d)
          ((builtOperations settings aliases d).flatMap BuiltOperation.met))
        collisions := ClientGen.collisions (closure settings.displayName (documentDefinitions d)
          ((builtOperations settings aliases d).flatMap BuiltOperation.met)) } := rfl
  rw [hmodel, hmodel, hclosure, hbuilt]

end Model

theorem ApiModel.notMem_gone_of_mem_allTypes {t : NamedType}
    (ht : t ∈ (ofDocument settings aliases (trim goneOperation gone document)).allTypes) : t.definition ∉ gone := by
  obtain ⟨name, s, hs, rfl⟩ := mem_closure_iff.1 (perm_allTypes.mem_iff.1 ht)
  have hget := hs.get?_eq
  rw [documentDefinitions_trim, Table.get?_filter (· ∉ gone)] at hget
  intro hgone
  have hgone : name ∈ gone := hgone
  rw [if_neg (by simpa using hgone)] at hget
  cases hget

/-- Operations that are not accepted and definitions that are not reachable have no influence on the model: a document
without them has the same operations, types and warnings. Of the definitions, it is just those that the model declares
types for that cannot go. -/
theorem ApiModel.ofDocument_trim (aliases : Aliases) (goneOperation : Text → Text → Bool) (gone : List Text)
    (hinline : ∀ raw ∈ acceptedOperations settings document, raw.IsInline)
    (hrejected : ∀ raw ∈ rawOperations document, goneOperation raw.path raw.method = true →
      settings.acceptsTag (firstTag raw.operation) = false) :
    let trimmed := trim goneOperation gone document
    ((∀ name, IsReachable settings document name → name ∉ gone) →
        ofDocument settings aliases trimmed = ofDocument settings aliases document) ∧
      (ofDocument settings aliases trimmed = ofDocument settings aliases document ↔
        ∀ t ∈ (ofDocument settings aliases document).allTypes, t.definition ∉ gone) := by
  intro trimmed
  constructor
  · intro hunreachable
    exact ofDocument_trim_of_kept hinline hrejected fun t ht => hunreachable _ (isReachable_of_mem_allTypes ht)
  constructor
  · intro hsame t ht
    rw [← hsame] at ht
    exact notMem_gone_of_mem_allTypes ht
  · exact ofDocument_trim_of_kept hinline hrejected

/-- A document with an operation that is not accepted and a definition for it alone, and without the two. -/
theorem ApiModel.ofDocument_trim_of_internal :
    let settings : Settings := { excludedTags := ["internal"] }
    let operation (tag definition : Text) : Value := .object [(.text "tags", .list [.text tag]),
      (.text "responses", .object [(.text "200", .object [(.text "schema",
        .object [(.text "$ref", .text ("#/definitions/" ++ definition))])])])]
    let pets : Scalar × Value := (.text "/pets", .object [(.text "get", operation "pets" "Pet")])
    let pet : Scalar × Value := (.text "Pet", .object [(.text "properties", .object
      [(.text "id", .object [(.text "type", .text "integer")])])])
    let trace : Scalar × Value := (.text "Trace", .object [(.text "type", .text "object")])
    let document : Fields :=
      [(.text "paths", .object [pets, (.text "/debug", .object [(.text "get", operation "internal" "Trace")])]),
        (.text "definitions", .object [pet, trace])]
    let trimmed : Fields :=
      [(.text "paths", .object [pets, (.text "/debug", .object [])]), (.text "definitions", .object [pet])]
    let goneOperation (path _ : Text) : Bool := path = "/debug"
    (∀ raw ∈ acceptedOperations settings document, raw.IsInline) ∧
      (∀ raw ∈ rawOperations document, goneOperation raw.path raw.method = true →
        settings.acceptsTag (firstTag raw.operation) = false) ∧
      (∀ name, IsReachable settings document name → name ∉ ["Trace".toList]) ∧
      ofDocument settings {} trimmed = ofDocument settings {} document := by
  intro settings operation pets pet trace document trimmed goneOperation
  have hinline : ∀ raw ∈ acceptedOperations settings document, raw.IsInline := by
    have haccepted : acceptedOperations settings document =
        [⟨"/pets", [(.text "get", operation "pets" "Pet")], "get", (operation "pets" "Pet").fields?.getD []⟩] := rfl
    rw [haccepted, List.forall_mem_singleton]
    exact ⟨by decide, nofun, by decide⟩
  have hrejected : ∀ raw ∈ rawOperations document, goneOperation raw.path raw.method = true →
      settings.acceptsTag (firstTag raw.operation) = false := by
    decide
  have hleaf {s : Schema} {ref : Text} (hparts : s.parts = []) (h : s.Refers ref) : s.ref = some ref := by
    cases h with
    | here h => exact h
    | part hc _ => rw [hparts] at hc; cases hc
  have hreachable {name : Text} (h : IsReachable settings document name) : name = "Pet" := by
    induction h with
    | root hs hr =>
      have hschemas : operationSchemas settings document = [Schema.link "#/definitions/Pet"] := rfl
      rw [hschemas, List.mem_singleton] at hs
      subst hs
      obtain rfl := Option.some.inj (hleaf rfl hr)
      decide
    | step _ hs hr ih =>
      subst ih
      obtain rfl := Option.some.inj hs
      -- the definition refers to nothing, nor does its property
      cases hr with
      | here h => cases h
      | part hc h =>
        obtain rfl := List.mem_singleton.1 hc
        cases hleaf rfl h
  have hunreachable : ∀ name, IsReachable settings document name → name ∉ ["Trace".toList] := by
    intro name hname
    rw [hreachable hname]
    decide
  have htrimmed : trim goneOperation ["Trace"] document = trimmed := rfl
  have hmodel := (ofDocument_trim {} goneOperation ["Trace"] hinline hrejected).1 hunreachable
  rw [htrimmed] at hmodel
  exact ⟨hinline, hrejected, hunreachable, hmodel⟩

end ClientGen
