import ClientGen.Api.Operation
import ClientGen.Settings.Basic
import ClientGen.TypeScript.TypeExpr
/-!
# Request functions

The exported function of an operation: its path with the parameters put in, its signature and its
call of the client.
-/

namespace ClientGen

open Text

/-- Every occurrence of `p` that no word character follows, exchanged for `q`; `p` is not empty. -/
def replaceWhole (p q : Text) : Text → Text :=
  substitute fun t =>
    match afterStart? p t with
    | some rest =>
      if (rest.head?.map Naming.isColonChar).getD false then none else some (q, p.length)
    | none => none

namespace Operation

/-- What stands in a template literal for a parameter. -/
def interpolation (p : Parameter) : Text := "$\x7b" ++ Naming.paramIdentifier p.name ++ "\x7d"

/-- The path with a parameter put in for its name in braces and for its name behind a colon. -/
def interpolate (path : Text) (p : Parameter) : Text :=
  replaceWhole (':' :: p.name) (interpolation p)
    (replace ('\x7b' :: p.name ++ ['\x7d']) (interpolation p) path)

def requestPath (o : Operation) : Text :=
  let path := o.pathParams.foldl interpolate o.cleanPath
  let quote := if o.pathParams.isEmpty then '\'' else '\x60'
  quote :: path ++ [quote]

/-- The type of the response, if one is named. -/
def named? (t : Option Text) : Option Text := t.filter (· ≠ [])

/-- The entries of the signature: the parameters of the path, the body and the query parameters. -/
def signature (o : Operation) : List Text :=
  let keyword (p : Parameter) : Keyword := (Keyword.ofTag? p.tag).getD .string
  o.pathParams.map (fun p => Naming.paramIdentifier p.name ++ ": " ++ (keyword p).render) ++
    ((named? o.bodyType).map ("data: ".toList ++ ·)).toList ++
    ((named? o.paramsType).map ("params: ".toList ++ ·)).toList

/-- Whether a method has no request body in the style of method calls. -/
def isReadMethod (method : Text) : Bool :=
  method = "get" || method = "delete" || method = "head" || method = "options"

/-- The call of the client by a method. -/
def chainCall (client : Text) (o : Operation) (response : Text) : List Text :=
  let method := lower o.method
  let data : List Text :=
    if !isReadMethod method && (named? o.bodyType).isSome then ["data".toList] else []
  let params : List Text := if (named? o.paramsType).isSome then ["\x7b params \x7d".toList] else []
  let arguments := join ", " (o.requestPath :: data ++ params)
  ["  return " ++ client ++ "." ++ method ++ "<" ++ response ++ ">(" ++ arguments ++ ")"]

/-- The call of the client with one object. -/
def objectCall (client : Text) (o : Operation) (response : Text) : List Text :=
  let entries : List Text :=
    ["    url: " ++ o.requestPath, "    method: '" ++ lower o.method ++ "'"] ++
      (if (named? o.bodyType).isSome then ["    data".toList] else []) ++
      (if (named? o.paramsType).isSome then ["    params".toList] else [])
  ["  return " ++ client ++ "<" ++ response ++ ">(\x7b", join ",\n" entries, "  \x7d)"]

def summaryLine (o : Operation) : List Text :=
  match named? o.summary with
  | some s => ["/** " ++ collapse s ++ " */"]
  | none => []

def functionLines (settings : Settings) (o : Operation) : List Text :=
  let response := (named? o.responseType).getD "unknown"
  let call :=
    match settings.requestStyle with
    | .chain => chainCall settings.requestClient o response
    | .object => objectCall settings.requestClient o response
  o.summaryLine ++
    ["export const " ++ o.callName ++ " = (" ++ join ", " o.signature ++ ") => \x7b"] ++ call ++
    [['\x7d']]

def renderFunction (settings : Settings) (o : Operation) : Text := join "\n" (o.functionLines settings)

end Operation

end ClientGen
