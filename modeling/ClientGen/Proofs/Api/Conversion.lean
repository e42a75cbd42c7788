import ClientGen.Api.Model
import ClientGen.Proofs.Document.Fields
import ClientGen.Proofs.Schema.References
import Mathlib.Data.List.Basic
/-!
# From one dialect to the other

A Swagger 2.0 document is written as an OpenAPI 3 document: the types of its parameters, its bodies and its
responses move to the places where they stand there. Both documents have the same model.
-/

namespace ClientGen

open Text

/-- The objects among the parameters that are listed in an object. -/
def parameterObjects (fields : Fields) : List Fields :=
  (((fields.get? "parameters").bind Value.items?).getD []).filterMap Value.fields?

namespace Conversion

/-- Changes the entries of a value that is an object. -/
def onObject (f : Fields → Fields) : Value → Value
  | .object fields => .object (f fields)
  | v => v

/-- Changes the members of a value that is a list. -/
def onList (f : List Value → List Value) : Value → Value
  | .list vs => .list (f vs)
  | v => v

/-- What a parameter says about its type. -/
def typeKeys : List Text := ["type".toList, "items".toList, "enum".toList]

/-- A parameter with its type in a schema. -/
def parameter (p : Fields) : Fields :=
  p.without ("schema".toList :: typeKeys) ++ [(.text "schema", .object (p.only typeKeys))]

/-- Whether a parameter is the request body. -/
def isBody (p : Fields) : Bool := p.text? "in" = some "body".toList

def parameters (vs : List Value) : List Value :=
  (vs.filter fun v => !(v.fields?.map isBody).getD false).map (onObject parameter)

def jsonContent (schema : Value) : Value :=
  .object [(.text "application/json", .object [(.text "schema", schema)])]

/-- A response with its schema in its content. -/
def response (r : Fields) : Fields :=
  r.without ["schema".toList, "content".toList] ++
    ((r.get? "schema").map fun schema => (Scalar.text "content", jsonContent schema)).toList

/-- The schema of the last body parameter that has one. Parameters of the path come before its own. -/
def bodySchema? (item operation : Fields) : Option Fields :=
  (((parameterObjects item ++ parameterObjects operation).filter isBody).filterMap (·.child? "schema")).getLast?

/-- An operation with its body apart from its parameters. -/
def operation (item op : Fields) : Fields :=
  let change (key : Scalar) (v : Value) : Value :=
    if key = .text "parameters" then onList parameters v
    else if key = .text "responses" then onObject (·.mapValues fun _ => onObject response) v
    else v
  let body (schema : Fields) : Scalar × Value :=
    (.text "requestBody", .object [(.text "content", jsonContent (.object schema))])
  (op.without ["requestBody".toList]).mapValues change ++ ((bodySchema? item op).map body).toList

/-- The object of a path with its operations. -/
def item (fields : Fields) : Fields :=
  fields.mapValues fun key v =>
    if key = .text "parameters" then onList parameters v
    else if key ∈ Naming.httpMethods.map Scalar.text then onObject (operation fields) v
    else v

/-- A document with its definitions among its components. -/
def document (d : Fields) : Fields :=
  let schemas := ((d.get? "definitions").map fun definitions => (Scalar.text "schemas", definitions)).toList
  (.text "openapi", .text "3.0.0") :: (.text "components", .object schemas) ::
    (d.without ["openapi".toList, "components".toList, "swagger".toList, "definitions".toList]).mapValues
      fun key v => if key = .text "paths" then onObject (·.mapValues fun _ => onObject item) v else v

end Conversion

/-- The objects among the responses of an operation. -/
def responseObjects (operation : Fields) : List Fields :=
  ((operation.child? "responses").getD []).filterMap (·.2.fields?)

/-- A document whose parameters and responses stand where they are used. -/
structure HasInlineParts (document : Fields) : Prop where
  parameters : ∀ raw ∈ rawOperations document,
    ∀ p ∈ parameterObjects raw.item ++ parameterObjects raw.operation, Pointer.ref? p = none
  responses : ∀ raw ∈ rawOperations document, ∀ r ∈ responseObjects raw.operation, Pointer.ref? r = none

namespace Conversion

/-! ## Documents -/

theorem ofDocument_document (d : Fields) : Dialect.ofDocument (document d) = .openapi3 := by
  rfl

theorem definitions_document (d : Fields) :
    Dialect.openapi3.definitions (document d) = Dialect.swagger2.definitions d := by
  have hcomponents : (document d).child? "components" =
      some ((d.get? "definitions").map fun definitions => (Scalar.text "schemas", definitions)).toList := rfl
  unfold Dialect.definitions
  dsimp only
  rw [hcomponents, Option.bind_some, Fields.child?, Fields.child?, Fields.get?_optional, if_pos rfl,
    Option.map_id']

variable {d fields p : Fields} {v : Value}

@[simp] theorem fields?_onObject (f : Fields → Fields) (v : Value) :
    (onObject f v).fields? = v.fields?.map f := by
  cases v <;> rfl

@[simp] theorem isNull_onObject (f : Fields → Fields) (v : Value) : (onObject f v).isNull = v.isNull := by
  cases v <;> rfl

@[simp] theorem items?_onList (f : List Value → List Value) (v : Value) :
    (onList f v).items? = v.items?.map f := by
  cases v <;> rfl

theorem get?_item (fields : Fields) {method : Text} (h : method ∈ Naming.httpMethods) :
    (item fields).get? method = (fields.get? method).map (onObject (operation fields)) := by
  have hne : ∀ m ∈ Naming.httpMethods, m ≠ "parameters".toList := by decide
  rw [item, Fields.get?_mapValues]
  simp only [Scalar.text.injEq, hne method h, if_false, List.mem_map, exists_eq_right, h, if_true]

theorem get?_item_parameters (fields : Fields) :
    (item fields).get? "parameters" = (fields.get? "parameters").map (onList parameters) := by
  rw [item, Fields.get?_mapValues]
  simp only [if_true]

theorem get?_document_paths (d : Fields) :
    (document d).get? "paths" = (d.get? "paths").map (onObject (·.mapValues fun _ => onObject item)) := by
  rw [document, Fields.get?_cons, if_neg (by decide), Fields.get?_cons, if_neg (by decide),
    Fields.get?_mapValues, Fields.get?_without, if_neg (by decide)]
  simp only [if_true]

/-- The objects of the paths of a document, when another one has them changed. -/
theorem pathItems_of_paths {d d' : Fields} {f : Scalar → Value → Value} {g : Scalar → Fields → Fields}
    (hf : ∀ key v, (f key v).fields? = v.fields?.map (g key))
    (h : d'.get? "paths" = (d.get? "paths").map (onObject (·.mapValues f))) :
    pathItems d' = (pathItems d).map fun e => (e.1, g e.1 e.2) := by
  have hitems (fields : Fields) :
      (fields.mapValues f).filterMap (fun e => e.2.fields?.map (e.1, ·)) =
        (fields.filterMap fun e => e.2.fields?.map (e.1, ·)).map fun e => (e.1, g e.1 e.2) := by
    rw [Fields.mapValues, List.filterMap_map, List.map_filterMap]
    refine List.filterMap_congr fun e _ => ?_
    simp [Function.comp_def, hf]
  unfold pathItems
  rw [h]
  cases d.get? "paths" with
  | none => rfl
  | some v =>
    rw [Option.map_some, Option.bind_some, Option.bind_some, fields?_onObject]
    cases v.fields? with
    | none => rfl
    | some fields => exact hitems fields

theorem pathItems_document (d : Fields) :
    pathItems (document d) = (pathItems d).map fun e => (e.1, item e.2) :=
  pathItems_of_paths (fun _ v => fields?_onObject item v) (get?_document_paths d)

/-- An operation of a converted document. -/
def raw (r : RawOperation) : RawOperation where
  path := r.path
  item := item r.item
  method := r.method
  operation := operation r.item r.operation

theorem operationsOfItem_item (path : Text) (fields : Fields) :
    operationsOfItem path (item fields) = (operationsOfItem path fields).map raw := by
  unfold operationsOfItem
  rw [List.map_filterMap]
  refine List.filterMap_congr fun method hm => ?_
  rw [get?_item fields hm]
  cases fields.get? method with
  | none => rfl
  | some v =>
    rw [Option.map_some, Option.bind_some, Option.bind_some, fields?_onObject]
    cases v.fields? <;> rfl

theorem rawOperations_document (d : Fields) : rawOperations (document d) = (rawOperations d).map raw := by
  unfold rawOperations
  rw [pathItems_document, List.flatMap_map, List.map_flatMap]
  refine List.flatMap_congr fun e _ => ?_
  obtain ⟨path, fields⟩ := e
  cases path with
  | text t => exact operationsOfItem_item t fields
  | _ => rfl

/-! ## Operations -/

theorem get?_operation (fields op : Fields) {t : Text}
    (h : t ∉ ["parameters".toList, "responses".toList, "requestBody".toList]) :
    (operation fields op).get? t = op.get? t := by
  simp only [List.mem_cons, List.not_mem_nil, or_false, not_or] at h
  obtain ⟨hp, hr, hb⟩ := h
  rw [operation, Fields.get?_append, Fields.get?_mapValues, Fields.get?_without, Fields.get?_optional,
    if_neg hb, Option.or_none]
  simp only [List.mem_singleton, hb, if_false, Scalar.text.injEq, hp, hr, Option.map_id']

theorem get?_operation_parameters (fields op : Fields) :
    (operation fields op).get? "parameters" = (op.get? "parameters").map (onList parameters) := by
  rw [operation, Fields.get?_append, Fields.get?_mapValues, Fields.get?_without, Fields.get?_optional,
    if_neg (by decide), if_neg (by decide), Option.or_none]
  simp only [if_true]

theorem get?_operation_responses (fields op : Fields) :
    (operation fields op).get? "responses" =
      (op.get? "responses").map (onObject (·.mapValues fun _ => onObject response)) := by
  have hne : Scalar.text "responses" ≠ .text "parameters" := by decide
  rw [operation, Fields.get?_append, Fields.get?_mapValues, Fields.get?_without, Fields.get?_optional,
    if_neg (by decide), if_neg (by decide), Option.or_none]
  simp only [hne, if_false, if_true]

theorem get?_operation_requestBody (fields op : Fields) :
    (operation fields op).get? "requestBody" =
      (bodySchema? fields op).map fun schema => .object [(.text "content", jsonContent (.object schema))] := by
  rw [operation, Fields.get?_append, Fields.get?_mapValues, Fields.get?_without, Fields.get?_optional,
    if_pos (by decide), if_pos rfl, Option.map_none, Option.none_or]

/-! ## Parameters -/

theorem get?_parameter (p : Fields) {t : Text} (h : t ∉ "schema".toList :: typeKeys) :
    (parameter p).get? t = p.get? t := by
  rw [parameter, Fields.get?_append, Fields.get?_without, if_neg h, Fields.get?_cons]
  rw [List.mem_cons, not_or] at h
  simp only [Scalar.text.injEq, Ne.symm h.1, if_false]
  exact Option.or_none

theorem get?_parameter_schema (p : Fields) :
    (parameter p).get? "schema" = some (.object (p.only typeKeys)) := by
  rw [parameter, Fields.get?_append, Fields.get?_without, if_pos List.mem_cons_self, Option.none_or,
    Fields.get?_cons, if_pos rfl]

theorem text?_parameter (p : Fields) {t : Text} (h : t ∉ "schema".toList :: typeKeys) :
    (parameter p).text? t = p.text? t := by
  rw [Fields.text?, Fields.text?, get?_parameter p h]

theorem ref?_parameter (p : Fields) : Pointer.ref? (parameter p) = Pointer.ref? p := by
  rw [Pointer.ref?, Pointer.ref?, get?_parameter p (by decide)]

theorem signatureLocation?_parameter (p : Fields) :
    signatureLocation? (parameter p) = signatureLocation? p := by
  rw [signatureLocation?, signatureLocation?, text?_parameter p (by decide)]

private theorem signatureLocation?_of_isBody (h : isBody p = true) : signatureLocation? p = none := by
  have hin : p.text? "in" = some "body".toList := by simpa [isBody] using h
  rw [signatureLocation?, hin]
  rfl

/-- Parameter objects without the request body, each converted. -/
def converted (ps : List Fields) : List Fields := (ps.filter (!isBody ·)).map parameter

private theorem filterMap_fields?_parameters (vs : List Value) :
    (parameters vs).filterMap Value.fields? = converted (vs.filterMap Value.fields?) := by
  induction vs with
  | nil => rfl
  | cons v vs ih =>
    unfold parameters converted at ih ⊢
    cases hv : v.fields? with
    | none => simp [hv, ih]
    | some p => by_cases hb : isBody p = true <;> simp [hv, hb, ih]

private theorem parameterObjects_eq {fields' : Fields}
    (h : fields'.get? "parameters" = (fields.get? "parameters").map (onList parameters)) :
    parameterObjects fields' = converted (parameterObjects fields) := by
  unfold parameterObjects
  rw [h]
  cases fields.get? "parameters" with
  | none => rfl
  | some v =>
    rw [Option.map_some, Option.bind_some, Option.bind_some, items?_onList]
    cases v.items? with
    | none => rfl
    | some vs => exact filterMap_fields?_parameters vs

theorem parameterObjects_raw (r : RawOperation) :
    parameterObjects (raw r).item ++ parameterObjects (raw r).operation =
      converted (parameterObjects r.item ++ parameterObjects r.operation) := by
  rw [raw, parameterObjects_eq (get?_item_parameters r.item),
    parameterObjects_eq (get?_operation_parameters r.item r.operation), converted, converted, converted,
    List.filter_append, List.map_append]

end Conversion

/-! ## Inline parts -/

theorem Pointer.resolve_inline {document p : Fields} {v : Value} (hv : v.fields? = some p)
    (hp : Pointer.ref? p = none) : Pointer.resolve document v = some p := by
  rw [resolve, follow]
  simp only [hv, hp]

theorem resolved_parameters {document fields : Fields}
    (h : ∀ p ∈ parameterObjects fields, Pointer.ref? p = none) :
    (parameterList fields).filterMap (Pointer.resolve document) = parameterObjects fields := by
  unfold parameterList
  unfold parameterObjects at h ⊢
  generalize ((fields.get? "parameters").bind Value.items?).getD [] = vs at h ⊢
  rw [List.filterMap_filter]
  refine List.filterMap_congr fun v hv => ?_
  cases hfields : v.fields? with
  | none => rfl
  | some p => exact Pointer.resolve_inline hfields (h p (List.mem_filterMap.2 ⟨v, hv, hfields⟩))

/-! ## Signatures -/

/-- The parameters that stand in the path or in the query, with their places. -/
def inSignature (ps : List Fields) : List (Fields × Text) :=
  ps.filterMap fun p => (signatureLocation? p).map (p, ·)

def schemaOf (p : Fields) : Fields := (p.child? "schema").getD []

namespace Conversion

theorem inSignature_converted (ps : List Fields) :
    inSignature (converted ps) = (inSignature ps).map fun e => (parameter e.1, e.2) := by
  induction ps with
  | nil => rfl
  | cons p ps ih =>
    unfold inSignature converted at ih ⊢
    by_cases hb : isBody p = true
    · simp [hb, signatureLocation?_of_isBody hb, ih]
    · cases hl : signatureLocation? p with
      | none => simp [hb, signatureLocation?_parameter, hl, ih]
      | some l => simp [hb, signatureLocation?_parameter, hl, ih]

theorem schemaOf_parameter (p : Fields) : schemaOf (parameter p) = p.only typeKeys := by
  rw [schemaOf, Fields.child?, get?_parameter_schema]
  rfl

theorem parameterOf_parameter (p : Fields) (location : Text) :
    parameterOf (parameter p) (p.only typeKeys) location = parameterOf p p location := by
  have htype {t : Text} (ht : t ∈ typeKeys) : (p.only typeKeys).get? t = p.get? t := by
    rw [Fields.get?_only, if_pos ht]
  unfold parameterOf
  simp only [Fields.text?, Fields.child?]
  rw [get?_parameter p (by decide), get?_parameter p (by decide), get?_parameter p (by decide),
    htype (by decide), htype (by decide), htype (by decide)]

theorem parameters_converted (ps : List Fields) :
    ((inSignature (converted ps)).map fun e => parameterOf e.1 (schemaOf e.1) e.2) =
      (inSignature ps).map fun e => parameterOf e.1 e.1 e.2 := by
  rw [inSignature_converted, List.map_map]
  refine List.map_congr_left fun e _ => ?_
  rw [Function.comp_apply]
  dsimp only
  rw [schemaOf_parameter, parameterOf_parameter]

/-! ## Responses -/

theorem jsonSchema?_of_content {node : Fields} {schema : Value}
    (h : node.get? "content" = some (jsonContent schema)) : jsonSchema? node = schema.fields? := by
  have hcontent : node.child? "content" =
      some [(.text "application/json", .object [(.text "schema", schema)])] := by
    rw [Fields.child?, h]
    rfl
  unfold jsonSchema?
  rw [hcontent]
  cases schema <;> rfl

theorem jsonSchema?_response (r : Fields) : jsonSchema? (response r) = r.child? "schema" := by
  have hcontent : (response r).get? "content" = (r.get? "schema").map jsonContent := by
    rw [response, Fields.get?_append, Fields.get?_without, if_pos (by decide), Option.none_or,
      Fields.get?_optional, if_pos rfl]
  cases hs : r.get? "schema" with
  | none =>
    rw [hs, Option.map_none] at hcontent
    unfold jsonSchema?
    rw [Fields.child?, hcontent, Fields.child?, hs]
    rfl
  | some schema =>
    rw [hs, Option.map_some] at hcontent
    rw [jsonSchema?_of_content hcontent, Fields.child?, hs, Option.bind_some]

theorem ref?_response (r : Fields) : Pointer.ref? (response r) = Pointer.ref? r := by
  rw [Pointer.ref?, Pointer.ref?, response, Fields.get?_append, Fields.get?_without, if_neg (by decide),
    Fields.get?_optional, if_neg (by decide), Option.or_none]

theorem present?_mapValues (key : Scalar) (fields : Fields) (f : Fields → Fields) :
    (fields.mapValues fun _ => onObject f).present? key = (fields.present? key).map (onObject f) := by
  rw [Fields.present?, Fields.present?, Fields.find?_mapValues fun _ _ => rfl]
  cases fields.find? key with
  | none => rfl
  | some v => by_cases hv : v.isNull = true <;> simp [Option.filter, hv]

private theorem child?_responses (fields op : Fields) :
    ((operation fields op).child? "responses").getD [] =
      ((op.child? "responses").getD []).mapValues fun _ => onObject response := by
  rw [Fields.child?, Fields.child?, get?_operation_responses]
  cases op.get? "responses" with
  | none => rfl
  | some v =>
    rw [Option.map_some, Option.bind_some, Option.bind_some, fields?_onObject]
    cases v.fields? <;> rfl

theorem ref?_of_present? {op : Fields} (h : ∀ r ∈ responseObjects op, Pointer.ref? r = none)
    {key : Scalar} {v : Value} (hv : ((op.child? "responses").getD []).present? key = some v) {r : Fields}
    (hr : v.fields? = some r) : Pointer.ref? r = none := by
  obtain ⟨k, hk⟩ := Fields.mem_of_find? (Option.filter_eq_some_iff.1 hv).1
  exact h r (List.mem_filterMap.2 ⟨_, hk, hr⟩)

private theorem resolve_converted {document document' : Fields} {v : Value}
    (h : ∀ r ∈ v.fields?, Pointer.ref? r = none) :
    Pointer.resolve document' (onObject response v) = (Pointer.resolve document v).map response := by
  cases hv : v.fields? with
  | none =>
    cases v with
    | object r => cases hv
    | _ => rfl
  | some r =>
    have hr := h r hv
    have hconverted : (onObject response v).fields? = some (response r) := by
      rw [fields?_onObject, hv, Option.map_some]
    rw [Pointer.resolve_inline hconverted ((ref?_response r).trans hr), Pointer.resolve_inline hv hr,
      Option.map_some]

/-- The response that counts in a converted operation is the one that counts in the operation, converted. -/
theorem successResponse?_operation {document document' : Fields} (fields op : Fields)
    (h : ∀ r ∈ responseObjects op, Pointer.ref? r = none) :
    successResponse? document' (operation fields op) = (successResponse? document op).map response := by
  unfold successResponse?
  dsimp only
  rw [child?_responses]
  simp only [present?_mapValues, ← Option.map_or]
  rw [← Function.comp_def (Option.map (onObject response)), ← List.map_findSome?]
  -- a conversion leaves what is null null, so that the same status counts in both operations
  generalize hgiven : List.findSome? _ _ = given
  cases given with
  | none => rfl
  | some v =>
    rw [Option.map_some, Option.bind_some, Option.bind_some]
    refine resolve_converted fun r hr => ?_
    obtain ⟨⟨number, text⟩, -, hv⟩ := List.exists_of_findSome?_eq_some hgiven
    rcases Option.or_eq_some_iff.1 hv with hv | ⟨-, hv⟩
    · exact ref?_of_present? h hv hr
    · exact ref?_of_present? h hv hr

/-! ## Parts -/

private theorem ofObject?_eq (v : Value) : Schema.ofObject? v = v.fields?.map Schema.ofFields := by
  cases v <;> rfl

private theorem ofFields_only_typeKeys (p : Fields) :
    let s := Schema.ofFields (p.only typeKeys)
    s.ref = none ∧ s.properties = [] ∧ s.allOf = [] ∧ s.additional = none ∧
      s.items = (p.get? "items").bind Schema.ofObject? := by
  induction p with
  | nil => exact ⟨rfl, rfl, rfl, rfl, rfl⟩
  | cons e p ih =>
    obtain ⟨k, v⟩ := e
    obtain ⟨href, hproperties, hallOf, hadditional, hitems⟩ := ih
    -- of the keys that are kept, `items` alone is one that parts are read from
    by_cases hk : k ∈ typeKeys.map Scalar.text
    · have honly : Fields.only typeKeys ((k, v) :: p) = (k, v) :: Fields.only typeKeys p :=
        List.filter_cons_of_pos (decide_eq_true hk)
      rw [honly]
      simp only [typeKeys, List.map_cons, List.map_nil, List.mem_cons, List.not_mem_nil, or_false] at hk
      rcases hk with rfl | rfl | rfl
      · exact ⟨href, hproperties, hallOf, hadditional, hitems⟩
      · exact ⟨href, hproperties, hallOf, hadditional, rfl⟩
      · exact ⟨href, hproperties, hallOf, hadditional, hitems⟩
    · have honly : Fields.only typeKeys ((k, v) :: p) = Fields.only typeKeys p :=
        List.filter_cons_of_neg (by simpa using hk)
      have hne : k ≠ .text "items" := by
        rintro rfl
        exact hk (by decide)
      rw [honly, Fields.get?_cons, if_neg hne]
      exact ⟨href, hproperties, hallOf, hadditional, hitems⟩

theorem refs_only_typeKeys (p : Fields) :
    (Schema.ofFields (p.only typeKeys)).refs =
      ((p.child? "items").map fun items => (Schema.ofFields items).refs).getD [] := by
  obtain ⟨href, hproperties, hallOf, hadditional, hitems⟩ := ofFields_only_typeKeys p
  have hobject : p.child? "items" = (p.get? "items").bind Value.fields? := rfl
  rw [Schema.refs_of_parts href, Schema.parts, hproperties, hallOf, hadditional, hitems, hobject]
  cases p.get? "items" with
  | none => rfl
  | some v => rw [Option.bind_some, Option.bind_some, ofObject?_eq]; cases v.fields? <;> simp

private theorem flatMap_refs_of_nonempty (schemas : List Fields) :
    (schemas.filter (!·.isEmpty)).flatMap (Schema.ofFields · |>.refs) =
      schemas.flatMap (Schema.ofFields · |>.refs) := by
  induction schemas with
  | nil => rfl
  | cons fields schemas ih =>
    cases fields with
    | nil => exact ih
    | cons e fields => exact congrArg (_ ++ ·) ih

theorem refs_converted (ps : List Fields) :
    (((inSignature (converted ps)).map fun e => schemaOf e.1).filter (!·.isEmpty)).flatMap
        (Schema.ofFields · |>.refs) =
      ((inSignature ps).filterMap (·.1.child? "items")).flatMap (Schema.ofFields · |>.refs) := by
  rw [flatMap_refs_of_nonempty, inSignature_converted, List.map_map, List.flatMap_map]
  generalize inSignature ps = es
  induction es with
  | nil => rfl
  | cons e es ih =>
    rw [List.flatMap_cons, ih, Function.comp_apply, schemaOf_parameter, refs_only_typeKeys, List.filterMap_cons]
    cases e.1.child? "items" <;> rfl

end Conversion

/-- Descriptions that an operation is built from alike. -/
structure OperationParts.ReadsAs (p q : OperationParts) : Prop where
  parameters : p.parameters = q.parameters
  body : p.body = q.body
  response : p.response = q.response
  refs : p.parameterSchemas.flatMap (Schema.ofFields · |>.refs) =
    q.parameterSchemas.flatMap (Schema.ofFields · |>.refs)

theorem buildOperation_congr {settings : Settings} {definitions : Table Schema} {group : Text}
    {r r' : RawOperation} {p q : OperationParts} (hpath : r'.path = r.path) (hmethod : r'.method = r.method)
    (hsummary : r'.operation.text? "summary" = r.operation.text? "summary") (h : p.ReadsAs q) :
    buildOperation settings definitions group r' p = buildOperation settings definitions group r q := by
  unfold buildOperation
  rw [hpath, hmethod, hsummary, h.parameters, h.body, h.response, h.refs]

namespace Conversion

theorem resolved_inline {document item op : Fields}
    (h : ∀ p ∈ parameterObjects item ++ parameterObjects op, Pointer.ref? p = none) :
    (parameterList item ++ parameterList op).filterMap (Pointer.resolve document) =
      parameterObjects item ++ parameterObjects op := by
  rw [List.filterMap_append, resolved_parameters fun p hp => h p (List.mem_append_left _ hp),
    resolved_parameters fun p hp => h p (List.mem_append_right _ hp)]

private theorem resolved_raw {document : Fields} {r : RawOperation}
    (h : ∀ p ∈ parameterObjects r.item ++ parameterObjects r.operation, Pointer.ref? p = none) :
    (parameterList (raw r).item ++ parameterList (raw r).operation).filterMap (Pointer.resolve document) =
      converted (parameterObjects r.item ++ parameterObjects r.operation) := by
  rw [resolved_inline, parameterObjects_raw]
  rw [parameterObjects_raw]
  intro p hp
  obtain ⟨q, hq, rfl⟩ := List.mem_map.1 hp
  exact (ref?_parameter q).trans (h q (List.mem_filter.1 hq).1)

private theorem body_raw (document : Fields) (r : RawOperation) :
    (((raw r).operation.get? "requestBody").bind (Pointer.resolve document)).bind jsonSchema? =
      bodySchema? r.item r.operation := by
  rw [raw, get?_operation_requestBody]
  cases bodySchema? r.item r.operation with
  | none => rfl
  | some schema =>
    rw [Option.map_some, Option.bind_some, Pointer.resolve_inline rfl rfl, Option.bind_some,
      jsonSchema?_of_content rfl]
    rfl

private theorem response_raw {document document' : Fields} {r : RawOperation}
    (h : ∀ p ∈ responseObjects r.operation, Pointer.ref? p = none) :
    (successResponse? document' (raw r).operation).bind jsonSchema? =
      (successResponse? document r.operation).bind (·.child? "schema") := by
  rw [raw, successResponse?_operation r.item r.operation h]
  cases successResponse? document r.operation with
  | none => rfl
  | some p => exact jsonSchema?_response p

theorem parts_raw {d : Fields} {r : RawOperation}
    (hp : ∀ p ∈ parameterObjects r.item ++ parameterObjects r.operation, Pointer.ref? p = none)
    (hr : ∀ p ∈ responseObjects r.operation, Pointer.ref? p = none) :
    (Dialect.openapi3.parts (document d) (raw r)).ReadsAs (Dialect.swagger2.parts d r) := by
  unfold Dialect.parts
  dsimp only
  unfold openapiParts swaggerParts
  rw [resolved_raw hp, resolved_inline hp]
  exact ⟨parameters_converted _, body_raw _ r, response_raw hr, refs_converted _⟩

theorem get?_raw (r : RawOperation) {t : Text}
    (h : t ∉ ["parameters".toList, "responses".toList, "requestBody".toList]) :
    (raw r).operation.get? t = r.operation.get? t := get?_operation r.item r.operation h

theorem firstTag_raw (r : RawOperation) : firstTag (raw r).operation = firstTag r.operation := by
  rw [firstTag, firstTag, get?_raw r (by decide)]

theorem acceptedOperations_document (settings : Settings) (d : Fields) :
    acceptedOperations settings (document d) = (acceptedOperations settings d).map raw := by
  rw [acceptedOperations, acceptedOperations, rawOperations_document, List.filter_map]
  refine congrArg (List.map raw) (List.filter_congr fun r _ => ?_)
  rw [Function.comp_apply, firstTag_raw]

end Conversion

theorem buildOperation_raw {d : Fields} (h : HasInlineParts d) {r : RawOperation} (hr : r ∈ rawOperations d)
    (settings : Settings) (definitions : Table Schema) (group : Text) :
    buildOperation settings definitions group (Conversion.raw r)
        (Dialect.openapi3.parts (Conversion.document d) (Conversion.raw r)) =
      buildOperation settings definitions group r (Dialect.swagger2.parts d r) := by
  refine buildOperation_congr rfl rfl ?_ (Conversion.parts_raw (h.parameters r hr) (h.responses r hr))
  rw [Fields.text?, Fields.text?, Conversion.get?_raw r (by decide)]

/-- A Swagger 2.0 document with inline parameters and responses has the same model as the OpenAPI 3 document
that it is converted to. -/
theorem model_of_conversion {d : Fields} (hd : Dialect.ofDocument d = .swagger2) (h : HasInlineParts d)
    (settings : Settings) (aliases : Aliases) :
    Dialect.ofDocument (Conversion.document d) = .openapi3 ∧
      ApiModel.ofDocument settings aliases (Conversion.document d) = ApiModel.ofDocument settings aliases d := by
  have hbuilt (definitions : Table Schema) :
      (acceptedOperations settings (Conversion.document d)).map (fun r =>
          buildOperation settings definitions (aliases.groupOf (firstTag r.operation)) r
            (Dialect.openapi3.parts (Conversion.document d) r)) =
        (acceptedOperations settings d).map fun r =>
          buildOperation settings definitions (aliases.groupOf (firstTag r.operation)) r
            (Dialect.swagger2.parts d r) := by
    rw [Conversion.acceptedOperations_document, List.map_map]
    refine List.map_congr_left fun r hr => ?_
    rw [Function.comp_apply, Conversion.firstTag_raw]
    exact buildOperation_raw h (List.mem_filter.1 hr).1 settings definitions _
  refine ⟨Conversion.ofDocument_document d, ?_⟩
  unfold ApiModel.ofDocument
  dsimp only
  rw [Conversion.ofDocument_document, Conversion.definitions_document, hd, hbuilt]

/-- A body of a whole path, a list in the query and a response with the status `201`. -/
theorem model_of_conversion_of_users :
    let user : Value := .object [(.text "$ref", .text "#/definitions/User")]
    let id : Scalar × Value := (.text "id", .object [(.text "type", .text "integer")])
    let definitions : Value := .object [(.text "User", .object [(.text "properties", .object [id])])]
    let name (n : Text) : Scalar × Value := (.text "name", .text n)
    let ids : Scalar × Value := (.text "items", user)
    let array : Scalar × Value := (.text "type", .text "array")
    let query : Scalar × Value := (.text "in", .text "query")
    let schema : Scalar × Value := (.text "schema", user)
    let content : Scalar × Value := (.text "content", .object [(.text "application/json", .object [schema])])
    let responses (r : Scalar × Value) : Scalar × Value :=
      (.text "responses", .object [(.int 201, .object [(.text "description", .text "made"), r])])
    let swagger : Fields :=
      [(.text "swagger", .text "2.0"), (.text "definitions", definitions),
        (.text "paths", .object [(.text "/users", .object
          [(.text "parameters", .list [.object [(.text "in", .text "body"), name "user", schema]]),
            (.text "post", .object
              [(.text "parameters", .list [.object [query, name "ids", array, ids]]), responses schema])])])]
    let openapi : Fields :=
      [(.text "openapi", .text "3.0.0"), (.text "components", .object [(.text "schemas", definitions)]),
        (.text "paths", .object [(.text "/users", .object
          [(.text "parameters", .list []),
            (.text "post", .object
              [(.text "parameters", .list [.object [query, name "ids", (.text "schema", .object [array, ids])]]),
                responses content, (.text "requestBody", .object [content])])])])]
    Dialect.ofDocument swagger = .swagger2 ∧ HasInlineParts swagger ∧ Conversion.document swagger = openapi ∧
      ApiModel.ofDocument {} {} openapi = ApiModel.ofDocument {} {} swagger := by
  intro user id definitions name ids array query schema content responses swagger openapi
  have hd : Dialect.ofDocument swagger = .swagger2 := rfl
  have hinline : HasInlineParts swagger := by
    have hparameters : ((rawOperations swagger).flatMap fun r =>
        parameterObjects r.item ++ parameterObjects r.operation).map Pointer.ref? = [none, none] := rfl
    have hresponses : ((rawOperations swagger).flatMap fun r => responseObjects r.operation).map Pointer.ref? =
        [none] := rfl
    constructor
    · intro r hr p hp
      have hmem : Pointer.ref? p ∈ [none, none] :=
        hparameters ▸ List.mem_map_of_mem (List.mem_flatMap.2 ⟨r, hr, hp⟩)
      simpa using hmem
    · intro r hr p hp
      have hmem : Pointer.ref? p ∈ [none] :=
        hresponses ▸ List.mem_map_of_mem (List.mem_flatMap.2 ⟨r, hr, hp⟩)
      exact List.mem_singleton.1 hmem
  have hopenapi : Conversion.document swagger = openapi := rfl
  refine ⟨hd, hinline, hopenapi, ?_⟩
  rw [← hopenapi]
  exact (model_of_conversion hd hinline {} {}).2

end ClientGen
