import ClientGen.Text.Table
import ClientGen.Text.Word
import ClientGen.TypeScript.Lexical
/-!
# Members of object types

The members in the body of an object type, one on each line or between semicolons.
-/

namespace ClientGen.Source

open Text

/-- The type text of a member and whether the member may be absent. -/
structure Field where
  type : Text
  isOptional : Bool := false
deriving DecidableEq, Repr

def isNameChar (c : Char) : Bool := isWord c || c == '$'

/-- The name at the beginning of a text, and the text behind it. -/
def nameAt? : Text → Option (Text × Text)
  | [] => none
  | c :: cs =>
    if isIdentStart c then some (c :: cs.takeWhile isNameChar, cs.dropWhile isNameChar) else none

/-- A text up to the first `closing`, which belongs to it, and the text behind; `opening` stands before. -/
def enclosed? (opening closing : Char) (t : Text) : Option (Text × Text) :=
  match t.dropWhile (· ≠ closing) with
  | c :: rest => some (opening :: t.takeWhile (· ≠ closing) ++ [c], rest)
  | [] => none

/-- The name of a member as it is written, and the text behind it. -/
def memberName? : Text → Option (Text × Text)
  | '[' :: ']' :: _ => none
  | '[' :: cs => enclosed? '[' ']' cs
  | '\'' :: cs => enclosed? '\'' '\'' cs
  | '"' :: cs => enclosed? '"' '"' cs
  | t => nameAt? t

/-- The name of a member without its quotes. -/
def unquote (name : Text) : Text :=
  match name with
  | q :: rest =>
    if (q = '\'' || q = '"') && rest.getLast? = some q then
      replace "\\\\" "\\" (replace "\\'" "'" rest.dropLast)
    else name
  | [] => []

/-- A type text without the separator at its end, unless it is nothing else. -/
def dropSeparator (t : Text) : Text :=
  match t.reverse with
  | c :: d :: rest => if c = ';' || c = ',' then (d :: rest).reverse else t
  | _ => t

/-- The type text behind the colon of a member. There has to be something, if only blanks. -/
def memberType? (t : Text) : Option Text :=
  if t = [] then none else some (collapse (dropSeparator (trim t)))

def member? (piece : Text) : Option (Text × Field) := do
  let (name, rest) ← memberName? (trimStart piece)
  let (isOptional, rest) :=
    match rest with
    | '?' :: rest => (true, rest)
    | _ => (false, rest)
  match trimStart rest with
  | ':' :: rest =>
    let type ← memberType? rest
    return (unquote name, ⟨type, isOptional⟩)
  | _ => none

def members (body : Text) : Table Field :=
  Table.ofEntries ((splitTopLevel (fun c => c = ';' || c = '\n') body).filterMap member?)

end ClientGen.Source
