import ClientGen.TypeScript.Declared
import ClientGen.TypeScript.Region
/-!
# Exported functions read back

The exported functions of a source text: constants that begin with a parameter list, and functions.
Each begins on a line of its own.
-/

namespace ClientGen.Source

open Text

/-- The beginning of a function: its name, and the text from its parameter list on. -/
structure FunctionHead where
  name : Text
  rest : Text

/-- The rest of a text from an opening parenthesis on, if it begins with one. -/
def fromParenthesis? (t : Text) : Option Text := if startsWith ['('] t then some t else none

/-- The beginning of an exported constant at the beginning of a line. -/
def constantHead? (line : Text) : Option FunctionHead := do
  let t ← afterWord? "export" (skipMargin line)
  let t ← afterWord? "const" t
  let (name, t) ← nameAt? t
  let t ← afterStart? ['='] (trimStart t)
  let t := trimStart t
  let t := ((afterStart? "async" t).map trimStart).getD t
  return ⟨name, ← fromParenthesis? t⟩

/-- The beginning of an exported function at the beginning of a line. -/
def functionHead? (line : Text) : Option FunctionHead := do
  let t ← afterWord? "export" (skipMargin line)
  let t := (afterWord? "async" t).getD t
  let t ← afterWord? "function" t
  let (name, t) ← nameAt? t
  return ⟨name, ← fromParenthesis? (skipTypeParameters ['('] t)⟩

/-- The rest of a text behind its matching bracket; it begins with an opening one. -/
def afterClose? (t : Text) : Option Text := (matchingClose? t 0).map fun i => t.drop (i + 1)

/-- What follows the function whose parameter list `t` begins with, when it is an arrow function. -/
def afterArrow? (t : Text) : Option Text := do
  let close ← matchingClose? t 0
  let (_, body) ← cut? "=>" (t.drop close)
  let body := trimStart body
  if startsWith ['\x7b'] body then afterClose? body else return body.drop (statement body).length

/-- What follows the function whose parameter list `t` begins with, when it has a body in braces. -/
def afterBody? (t : Text) : Option Text := do
  let close ← matchingClose? t 0
  match (t.drop close).dropWhile (· ≠ '\x7b') with
  | [] => none
  | body => afterClose? body

/-- The function at a place, if its end is found, and the number of characters of its beginning. -/
def functionAt (head? : Text → Option FunctionHead) (after? : Text → Option Text)
    (before : Char) (t : Text) : Option (Option (Text × Text) × Nat) :=
  if before ≠ '\n' then none
  else
    (head? t).map fun h =>
      let found := (after? h.rest).map fun rest =>
        (h.name, trim (t.take (t.length - rest.length)))
      (found, t.length - h.rest.length + 1)

/-- The exported functions of a source text, with their own text: first the constants. -/
def exportedFunctions (t : Text) : Table Text :=
  let source := stripComments t
  Table.ofEntries
    ((collect (functionAt constantHead? afterArrow?) source).filterMap id ++
      (collect (functionAt functionHead? afterBody?) source).filterMap id)

end ClientGen.Source
