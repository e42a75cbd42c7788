import ClientGen.Naming
import ClientGen.Document.Value
import ClientGen.Text.Table
/-!
# Settings

What a project may set: where its API description and its generated code are, how requests are
written, and which names, fields and tags are left out.
-/

namespace ClientGen

/-- How a request function calls the client. -/
inductive RequestStyle where
  /-- By a method of the client: `client.get<T>(path)`. -/
  | chain
  /-- By the client itself, with one object: `client<T>(…)`. -/
  | object
deriving DecidableEq, Repr

/-- The settings of a project. -/
structure Settings where
  input : Text := "./swagger.json"
  output : Text := "./src/api"
  requestStyle : RequestStyle := .chain
  requestClient : Text := "requestClient"
  /-- The module that the client is imported from. -/
  requestImport : Text := "@/utils/request"
  /-- The prefixes left out of paths, the longest first. -/
  pathPrefixes : List Text := ["/api/v1", "/api"]
  /-- The suffixes left out of type names, in order of preference. -/
  typeSuffixes : List Text := ["Request", "Response"]
  /-- The properties and query parameters left out of declarations. -/
  excludedFields : List Text := []
  /-- The property of a response that holds its payload. -/
  unwrapField : Option Text := some "data"
  tagMapping : Table Text := []
  /-- The tags whose operations are kept; all, if none is named. -/
  includedTags : List Text := []
  /-- The tags whose operations are left out, unless some are named to be kept. -/
  excludedTags : List Text := []
deriving DecidableEq, Repr

namespace Settings

def acceptsTag (s : Settings) (tag : Text) : Bool :=
  if s.includedTags ≠ [] then tag ∈ s.includedTags
  else tag ∉ s.excludedTags

/-- The name under which a type of the description is declared. -/
def displayName (s : Settings) (definition : Text) : Text :=
  Naming.displayName s.typeSuffixes definition

/-- Whether a property or a query parameter is left out. -/
def excludes (s : Settings) (field : Text) : Bool := field ∈ s.excludedFields

end Settings

def RequestStyle.name : RequestStyle → Text
  | .chain => "chain"
  | .object => "object"

def RequestStyle.ofName? (name : Text) : Option RequestStyle :=
  if name = "chain" then some .chain
  else if name = "object" then some .object
  else none

end ClientGen
