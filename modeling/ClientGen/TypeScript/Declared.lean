import ClientGen.TypeScript.Members
/-!
# Declarations read back

The interfaces and type aliases of a source text. Each begins on a line of its own; of several with one
name the last counts, in the place of the first.
-/

namespace ClientGen.Source

open Text

/-- What is declared under a name. -/
inductive Declared where
  /-- An interface: what it extends, and its members. -/
  | interface (parents : List Text) (fields : Table Field)
  /-- An alias of an object type: its members. -/
  | objectType (fields : Table Field)
  /-- An alias of any other type: its text. -/
  | typeAlias (type : Text)
deriving DecidableEq, Repr

namespace Declared

def fields : Declared → Table Field
  | .interface _ fs => fs
  | .objectType fs => fs
  | .typeAlias _ => []

def parents : Declared → List Text
  | .interface ps _ => ps
  | _ => []

/-- The text of the type that an alias stands for, unless it is an object type. -/
def aliased? : Declared → Option Text
  | .typeAlias t => some t
  | _ => none

end Declared

/-- The rest of a text behind a word and the blanks that have to follow it. -/
def afterWord? (word t : Text) : Option Text :=
  match afterStart? word t with
  | some (c :: rest) => if isBlank c then some (trimStart rest) else none
  | _ => none

/-- The rest of a text behind the spaces and tabs at its beginning. -/
def skipMargin (t : Text) : Text := t.dropWhile fun c => c = ' ' || c = '\t'

/-- The rest of a text behind a list of type parameters, if there is one, and blanks. None of the
characters `stop` may stand in the list. -/
def skipTypeParameters (stop : List Char) (t : Text) : Text :=
  match trimStart t with
  | '<' :: cs =>
    match cs.dropWhile fun c => c ≠ '>' && c ∉ stop with
    | '>' :: rest => trimStart rest
    | _ => '<' :: cs
  | t => t

/-- The beginning of a declaration. -/
structure Head where
  isInterface : Bool
  name : Text
  rest : Text

/-- The beginning of a declaration at the beginning of a line. -/
def head? (line : Text) : Option Head := do
  let t := skipMargin line
  let t := (afterWord? "export" t).getD t
  let (isInterface, t) ←
    match afterWord? "interface" t with
    | some rest => some (true, rest)
    | none => (afterWord? "type" t).map (false, ·)
  let (name, t) ← nameAt? t
  return ⟨isInterface, name, skipTypeParameters ['\x7b', '='] t⟩

/-- The names behind `extends` in the text before the body of an interface. -/
def parentsOf (heading : Text) : List Text :=
  match afterWord? "extends" heading with
  | some names => ((splitTopLevel (· = ',') names).map trim).filter (· ≠ [])
  | none => []

/-- A declaration that was looked for: what was found, if anything, and the rest of the text. -/
abbrev Found := Option Declared × Text

/-- The interface whose heading goes on with `t`. -/
def interfaceAt (t : Text) : Found :=
  let heading := t.takeWhile (· ≠ '\x7b')
  let body := t.drop heading.length
  if body = [] then (none, t)
  else
    match matchingClose? body 0 with
    | none => (none, body.drop 1)
    | some close =>
      (some (.interface (parentsOf heading) (members ((body.take close).drop 1))),
        body.drop (close + 1))

/-- The type that an alias text stands for. -/
def aliasOf (type : Text) : Declared :=
  if startsWith ['\x7b'] type && matchingClose? type 0 = some (type.length - 1) then
    .objectType (members (type.drop 1).dropLast)
  else .typeAlias type

/-- The alias whose heading goes on with `t`. -/
def aliasAt (t : Text) : Found :=
  match t with
  | '=' :: rest =>
    let s := statement rest
    (some (aliasOf (trim (dropEndWhile (· = ';') (trim s)))), rest.drop s.length)
  | _ => (none, t)

/-- The declaration at a place, and the number of characters that it covers. -/
def declarationAt (before : Char) (t : Text) : Option (Option (Text × Declared) × Nat) :=
  if before ≠ '\n' then none
  else
    (head? t).map fun h =>
      let (found, rest) := if h.isInterface then interfaceAt h.rest else aliasAt h.rest
      (found.map (h.name, ·), t.length - rest.length)

def declaredTypes (t : Text) : Table Declared :=
  Table.ofEntries ((collect declarationAt (stripComments t)).filterMap id)

end ClientGen.Source
