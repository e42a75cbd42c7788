import ClientGen.Document.Display
import ClientGen.Naming
/-!
# Type expressions

The type expressions of the generated code, as trees and as text. Operators are written without
parentheses; only `TypeExpr.grouped` has some.
-/

namespace ClientGen

/-- The types that have a keyword. -/
inductive Keyword where
  | string
  | number
  | boolean
  | unknown
deriving DecidableEq, Repr

/-- A member of an object type. -/
structure Member (α : Type) where
  name : Text
  isOptional : Bool
  type : α

/-- A type expression. -/
inductive TypeExpr where
  | keyword (k : Keyword)
  | named (name : Text)
  | literals (values : List Value)
  | intersection (members : List TypeExpr)
  | array (item : TypeExpr)
  | grouped (inner : TypeExpr)
  | object (members : List (Member TypeExpr))
  | record (values : TypeExpr)

def Keyword.render : Keyword → Text
  | .string => "string"
  | .number => "number"
  | .boolean => "boolean"
  | .unknown => "unknown"

/-- The keyword of a scalar kind of the description. -/
def Keyword.ofTag? (tag : Option Text) : Option Keyword :=
  if tag = some "string".toList then some .string
  else if tag = some "integer".toList || tag = some "number".toList then some .number
  else if tag = some "boolean".toList then some .boolean
  else none

namespace TypeExpr

def renderLiteral : Value → Text
  | .scalar (.text t) => Text.literal t
  | .scalar (.bool b) => if b then "true" else "false"
  | .scalar .null => "null"
  | v => v.toText

/-- The union of the literals of the values. -/
def renderLiterals (values : List Value) : Text := Text.join " | " (values.map renderLiteral)

def renderMember (name : Text) (isOptional : Bool) (type : Text) : Text :=
  Naming.propertyName name ++ (if isOptional then "?: " else ": ") ++ type

mutual

def render : TypeExpr → Text
  | .keyword k => k.render
  | .named name => name
  | .literals values => renderLiterals values
  | .intersection members => Text.join " & " (renderAll members)
  | .array item => render item ++ "[]"
  | .grouped inner => "(" ++ render inner ++ ")"
  | .object members => "\x7b " ++ Text.join "; " (renderMembers members) ++ " \x7d"
  | .record values => "Record<string, " ++ render values ++ ">"
termination_by structural e => e

def renderAll : List TypeExpr → List Text
  | [] => []
  | e :: es => render e :: renderAll es
termination_by structural es => es

def renderMembers : List (Member TypeExpr) → List Text
  | [] => []
  | ⟨name, isOptional, type⟩ :: ms => renderMember name isOptional (render type) :: renderMembers ms
termination_by structural ms => ms

end

abbrev unknown : TypeExpr := .keyword .unknown

end TypeExpr

end ClientGen
