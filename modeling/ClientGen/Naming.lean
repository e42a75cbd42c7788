import ClientGen.Text.Case
import ClientGen.Text.Quoted
import ClientGen.Text.Word
/-!
# Names

How the names of the generated code are made from the names of an API description: request
functions, types, properties, parameters and group directories.
-/

namespace ClientGen.Naming

open Text

/-- The request methods that are looked for under a path, in the order of the generated code. -/
def httpMethods : List Text :=
  ["get".toList, "post".toList, "put".toList, "delete".toList, "patch".toList, "options".toList,
    "head".toList]

/-- Drops every `-` and `_` that has a character behind it on the same line, and raises that
character. -/
def raiseAfterSeparators : Text → Text
  | [] => []
  | [c] => [c]
  | c :: d :: cs =>
    if (c = '-' || c = '_') && d ≠ '\n' then upperChar d ++ raiseAfterSeparators cs
    else c :: raiseAfterSeparators (d :: cs)

/-- The name in camel case: `pos-devices` becomes `posDevices`. -/
def camelCase (name : Text) : Text := decapitalize (raiseAfterSeparators name)

/-- The name in Pascal case: `pos-devices` becomes `PosDevices`. -/
def pascalCase (name : Text) : Text := capitalize (camelCase name)

/-- Whether a name is written without quotes: an identifier, or one with a line feed at its end. -/
def isBareName (name : Text) : Bool :=
  isIdentifier name ||
    match beforeEnd? ['\n'] name with
    | some line => isIdentifier line
    | none => false

/-- The name of a property in an object type, in quotes unless it is a bare name. -/
def propertyName (name : Text) : Text := if isBareName name then name else literal name

/-- Every run of characters that cannot stand in an identifier exchanged for one underscore. -/
def underscoreRuns (name : Text) : Text :=
  go false name
where
  /-- Goes on inside a run already exchanged when `inRun` is set. -/
  go (inRun : Bool) : Text → Text
    | [] => []
    | c :: cs =>
      if isIdentChar c then c :: go false cs
      else if inRun then go true cs
      else '_' :: go true cs

/-- The identifier that stands for a path parameter: `user-id` becomes `userId`. -/
def paramIdentifier (name : Text) : Text :=
  if isBareName name then name
  else
    let identifier := underscoreRuns (camelCase name)
    if isBareName identifier then identifier else '_' :: identifier

/-- The name without the first of the suffixes that it ends with; no name becomes empty. -/
def dropSuffix (name : Text) : List Text → Text
  | [] => name
  | suffix :: suffixes =>
    if suffix ≠ [] && suffix.length < name.length then
      (beforeEnd? suffix name).getD (dropSuffix name suffixes)
    else dropSuffix name suffixes

/-- The part of a qualified name behind its last dot. -/
def lastPart (name : Text) : Text := ((splitOn '.' name).getLast?).getD []

/-- The name under which a type of the description is declared. -/
def displayName (suffixes : List Text) (definition : Text) : Text :=
  dropSuffix (pascalCase (lastPart definition)) suffixes

/-- The module of a type: the qualifier before the first dot, or `common`. -/
def moduleName (definition : Text) : Text :=
  match splitOn '.' definition with
  | first :: _ :: _ => if first = [] then "common" else camelCase first
  | _ => "common"

/-- The texts from the longest to the shortest; texts of one length keep their order. -/
def longestFirst (ts : List Text) : List Text := ts.mergeSort fun s t => t.length ≤ s.length

/-- What is left of a path behind a prefix that covers whole segments. -/
def afterSegments? (bare path : Text) : Option Text :=
  match afterStart? bare path with
  | some [] => some ['/']
  | some ('/' :: rest) => some ('/' :: rest)
  | _ => none

/-- The path without the longest of the prefixes that covers whole segments of it. -/
def cleanPath (path : Text) (prefixes : List Text) : Text :=
  let bares := (longestFirst prefixes).map (dropEndWhile (· == '/'))
  ((bares.filter (· ≠ [])).findSome? (afterSegments? · path)).getD path

/-- What a path parameter adds to the name of a request function. -/
def byName (parameter : Text) : Text := "/By" ++ pascalCase parameter

/-- The parameter in braces at the beginning of a text, as a segment that names it. -/
def bracedAt : Text → Option (Text × Nat)
  | '\x7b' :: cs =>
    let name := cs.takeWhile (· ≠ '\x7d')
    if name ≠ [] && name.length < cs.length then some (byName name, name.length + 2) else none
  | _ => none

/-- Whether a character may stand in a parameter that is written behind a colon. -/
def isColonChar (c : Char) : Bool := isLetter c || isDigit c || c == '_'

/-- The parameter behind a colon at the beginning of a text, as a segment that names it. -/
def colonAt : Text → Option (Text × Nat)
  | ':' :: c :: cs =>
    if isColonChar c && !isDigit c then
      let name := (c :: cs).takeWhile isColonChar
      some (byName name, name.length + 1)
    else none
  | _ => none

/-- The name of the request function of a method and a path:
`get /orders/:id/items` becomes `getOrdersByIdItems`. -/
def callName (method path : Text) : Text :=
  let segments := (splitOn '/' (substitute colonAt (substitute bracedAt path))).filter (· ≠ [])
  (lower method ++ segments.flatMap pascalCase).filter isIdentChar

/-- The name of the type that holds the query parameters of a request function. -/
def paramsTypeName (call : Text) : Text := pascalCase call ++ "Params"

/-- The directory of a group: `SysApi` becomes `sysApi`. -/
def groupDirectory (name : Text) : Text := camelCase name

end ClientGen.Naming
