import ClientGen.Api.Category
import ClientGen.Api.Operation
import ClientGen.Api.Pointer
/-!
# Dialects

An API description is a Swagger 2.0 or an OpenAPI 3 document. The dialects differ in where
definitions stand and in how parameters, bodies and responses are written.
-/

namespace ClientGen

/-- The dialect of an API description. -/
inductive Dialect where
  | swagger2
  | openapi3
deriving DecidableEq, Repr

def Fields.child? (key : Text) (fields : Fields) : Option Fields := (fields.get? key).bind Value.fields?

/-- The value under a key, unless it is absent or null. -/
def Fields.present? (key : Scalar) (fields : Fields) : Option Value :=
  (fields.find? key).filter (!·.isNull)

def Fields.text? (key : Text) (fields : Fields) : Option Text := (fields.get? key).bind Value.text?

namespace Dialect

/-- The dialect of a document: what is not marked as OpenAPI 3 is read as Swagger 2.0. -/
def ofDocument (document : Fields) : Dialect :=
  match document.text? "openapi" with
  | some version => if Text.startsWith "3." (Text.trim version) then .openapi3 else .swagger2
  | none => .swagger2

def name : Dialect → Text
  | .swagger2 => "swagger2"
  | .openapi3 => "openapi3"

/-- The definitions of a document. -/
def definitions (dialect : Dialect) (document : Fields) : Fields :=
  match dialect with
  | .openapi3 => ((document.child? "components").bind (·.child? "schemas")).getD []
  | .swagger2 => (document.child? "definitions").getD []

end Dialect

def definitionSchemas (definitions : Fields) : Table Schema := Schema.ofEntries (.object definitions)

/-- What an operation object says, in terms common to the dialects. -/
structure OperationParts where
  parameters : List Parameter := []
  body : Option Fields := none
  response : Option Fields := none
  /-- The schemas that the types of parameters are read from. -/
  parameterSchemas : List Fields := []

def parameterList (fields : Fields) : List Value :=
  (((fields.get? "parameters").bind Value.items?).getD []).filter (·.fields?.isSome)

/-- A parameter object, with its type read from `source`. -/
def parameterOf (parameter source : Fields) (location : Text) : Parameter where
  name := (parameter.text? "name").getD []
  location := location
  isRequired := ((parameter.get? "required").map Value.isTrue).getD false
  tag := source.text? "type"
  items := (source.child? "items").map Value.object
  enum := ((source.get? "enum").bind Value.items?).getD []
  description := (parameter.text? "description").filter (· ≠ [])

/-- Where a parameter of a path or a query stands. -/
def signatureLocation? (parameter : Fields) : Option Text :=
  (parameter.text? "in").filter fun l => l = "path" || l = "query"

/-- The first of the responses `200` and `201` that is given; statuses may be numbers. -/
def successResponse? (document operation : Fields) : Option Fields :=
  let responses := (operation.child? "responses").getD []
  let given := [(200, "200".toList), (201, "201".toList)].findSome? fun (number, text) =>
    (responses.present? (.text text)).or (responses.present? (.int number))
  given.bind (Pointer.resolve document)

/-- The schema of the JSON content of a request body or a response. -/
def jsonSchema? (node : Fields) : Option Fields :=
  let content := (node.child? "content").getD []
  ["application/json".toList, "*/*".toList].findSome? fun media =>
    (content.child? media).bind (·.child? "schema")

/-- The parts of a Swagger 2.0 operation. The last body parameter with a schema counts. -/
def swaggerParts (document : Fields) (parameters : List Value) (operation : Fields) : OperationParts :=
  let resolved := parameters.filterMap (Pointer.resolve document)
  let inSignature := resolved.filterMap fun p => (signatureLocation? p).map (p, ·)
  let bodies := (resolved.filter fun p => p.text? "in" = some "body".toList).filterMap
    (·.child? "schema")
  { parameters := inSignature.map fun (p, location) => parameterOf p p location
    body := bodies.getLast?
    response := (successResponse? document operation).bind (·.child? "schema")
    parameterSchemas := inSignature.filterMap fun (p, _) => p.child? "items" }

def openapiParts (document : Fields) (parameters : List Value) (operation : Fields) : OperationParts :=
  let resolved := parameters.filterMap (Pointer.resolve document)
  let inSignature := resolved.filterMap fun p => (signatureLocation? p).map (p, ·)
  let schemaOf (p : Fields) : Fields := (p.child? "schema").getD []
  { parameters := inSignature.map fun (p, location) => parameterOf p (schemaOf p) location
    body := ((operation.get? "requestBody").bind (Pointer.resolve document)).bind jsonSchema?
    response := (successResponse? document operation).bind jsonSchema?
    parameterSchemas := (inSignature.map fun (p, _) => schemaOf p).filter (!·.isEmpty) }

/-- The parts of an operation of a dialect. Parameters of the path come before its own. -/
def Dialect.parts (dialect : Dialect) (document : Fields) (raw : RawOperation) : OperationParts :=
  let parameters := parameterList raw.item ++ parameterList raw.operation
  match dialect with
  | .swagger2 => swaggerParts document parameters raw.operation
  | .openapi3 => openapiParts document parameters raw.operation

end ClientGen
