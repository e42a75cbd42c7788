import ClientGen.Api.Dialect
import ClientGen.Api.Envelope
import ClientGen.Api.Reachable
/-!
# The model of an API

The operations of a document by group, the types they lead to by module, and the collisions of type
names. The model is the same for both dialects.
-/

namespace ClientGen

/-- What code is generated from. -/
structure ApiModel where
  operations : Table (List Operation)
  types : Table (List NamedType)
  /-- The declared names that several types have. -/
  collisions : List Collision

def ApiModel.allTypes (m : ApiModel) : List NamedType := m.types.flatMap Prod.snd

def ApiModel.warnings (m : ApiModel) : List Text := m.collisions.map Collision.message

def ApiModel.groupTypes (m : ApiModel) : Table (List NamedType) :=
  m.operations.map fun (group, operations) => (group, ClientGen.groupTypes operations m.allTypes)

/-- An operation and the references met in its schemas, in order. -/
structure BuiltOperation where
  operation : Operation
  met : List Text

def responseType (settings : Settings) (definitions : Table Schema) (response : Schema) : SignatureType :=
  match settings.unwrapField.filter (· ≠ []) with
  | some field => SignatureType.unwrap settings.displayName definitions field response
  | none => SignatureType.ofSchema settings.displayName response

def buildOperation (settings : Settings) (definitions : Table Schema) (group : Text)
    (raw : RawOperation) (parts : OperationParts) : BuiltOperation :=
  let cleanPath := Naming.cleanPath raw.path settings.pathPrefixes
  let callName := Naming.callName raw.method cleanPath
  let body := parts.body.map Schema.ofFields
  let response := parts.response.map Schema.ofFields
  let bodyType := (body.map (SignatureType.ofSchema settings.displayName)).getD {}
  let returned := (response.map (responseType settings definitions)).getD {}
  let queryParams := parts.parameters.filter (·.location = "query".toList)
  let schemaRefs (s : Option Schema) : List Text := (s.map Schema.refs).getD []
  { operation :=
      { path := raw.path, cleanPath, method := raw.method, group, callName
        summary := ((raw.operation.text? "summary").map Text.trim).filter (· ≠ [])
        bodyType := bodyType.typeText
        paramsType := if queryParams.isEmpty then none else some (Naming.paramsTypeName callName)
        responseType := returned.typeText
        pathParams := parts.parameters.filter (·.location = "path".toList)
        queryParams
        bodySchema := parts.body
        responseSchema := parts.response
        typeRefs := bodyType.namedAfter ++ returned.namedAfter.filter (· ∉ bodyType.namedAfter) }
    met :=
      parts.parameterSchemas.flatMap (Schema.ofFields · |>.refs) ++ schemaRefs body ++
        schemaRefs response ++ returned.met }

/-- The operations of a document whose category the settings accept. -/
def acceptedOperations (settings : Settings) (document : Fields) : List RawOperation :=
  (rawOperations document).filter fun raw => settings.acceptsTag (firstTag raw.operation)

def ApiModel.ofDocument (settings : Settings) (aliases : Aliases) (document : Fields) : ApiModel :=
  let dialect := Dialect.ofDocument document
  let definitions := definitionSchemas (dialect.definitions document)
  let built := (acceptedOperations settings document).map fun raw =>
    buildOperation settings definitions (aliases.groupOf (firstTag raw.operation)) raw
      (dialect.parts document raw)
  let types := closure settings.displayName definitions (built.flatMap BuiltOperation.met)
  { operations := Table.groupBy Operation.group (built.map BuiltOperation.operation)
    types := Table.groupBy NamedType.module types
    collisions := ClientGen.collisions types }

end ClientGen
