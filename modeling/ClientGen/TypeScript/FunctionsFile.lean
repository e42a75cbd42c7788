import ClientGen.TypeScript.Region
import ClientGen.TypeScript.RequestFunction
/-!
# Functions files

The functions file of a group imports the client and the types of the signatures, and has the request
functions between the markers of the generated region.
-/

namespace ClientGen

open Text

/-- The names of types that need no import. -/
def builtinTypes : List Text :=
  ["unknown", "any", "void", "never", "string", "number", "boolean", "null", "undefined", "object",
    "symbol", "bigint", "Record", "Partial", "Required", "Readonly", "Pick", "Omit", "Array"]

/-- A type without the brackets of its arrays. -/
def elementType (type : Text) : Text :=
  go type.reverse
where
  /-- Works on the characters from the last to the first. -/
  go : Text → Text
    | ']' :: '[' :: rest => go rest
    | rest => rest.reverse

/-- The name to import for a type in a signature. -/
def importOf (type : Text) : Option Text :=
  let name := elementType type
  if Naming.isBareName name && name ∉ builtinTypes then some name else none

def Operation.signatureTypes (o : Operation) : List Text :=
  [o.paramsType, o.bodyType, o.responseType].filterMap Operation.named?

/-- The names of the types that the request functions import, in order. -/
def importedTypes (operations : List Operation) : List Text :=
  sort (firstOccurrences ((operations.flatMap Operation.signatureTypes).filterMap importOf))

def importLines (settings : Settings) (operations : List Operation) (typesModule : Text) : List Text :=
  let client := "import \x7b " ++ settings.requestClient ++ " \x7d from '" ++ settings.requestImport ++ "'"
  let names := importedTypes operations
  let types : Text := "import type \x7b " ++ join ", " names ++ " \x7d from '" ++ typesModule ++ "'"
  client :: if names.isEmpty then [] else [types]

def functionsFileHeader : Text :=
  "/**\n * This file is generated by swagger-typegen.\n" ++
    " * Generated code lives between the AUTO GENERATED markers;\n" ++
    " * code outside the markers is never overwritten.\n */\n"

def renderFunctionsFile (settings : Settings) (operations : List Operation)
    (typesModule : Text := "./types") : Text :=
  let functions := operations.flatMap fun o => [o.renderFunction settings, []]
  join "\n"
    ([functionsFileHeader, join "\n" (importLines settings operations typesModule), [], startMarker, []] ++
      functions ++ [endMarker, []])

end ClientGen
