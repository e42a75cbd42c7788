import ClientGen.Text.Blank
/-!
# Literals, comments and brackets

The generated code is read back without a grammar of the language: it is enough to know which
characters stand in string and template literals, where comments are, and which brackets match.
-/

namespace ClientGen.Source

open Text

def isQuote (c : Char) : Bool := c == '\'' || c == '"' || c == '\x60'

/-- Where a reader stands between two characters. -/
inductive Mode where
  | code
  /-- In a literal that `quote` closes. -/
  | literal (quote : Char)
  /-- In a literal that `quote` closes, behind a backslash. -/
  | escape (quote : Char)
deriving DecidableEq, Repr

/-- The mode behind a character, and whether the character belongs to a literal. A line feed ends
every literal but a template. -/
def Mode.step : Mode → Char → Mode × Bool
  | .code, c => if isQuote c then (.literal c, true) else (.code, false)
  | .literal q, c =>
    if c = '\\' then (.escape q, true)
    else if c = q then (.code, true)
    else if c = '\n' && q ≠ '\x60' then (.code, false)
    else (.literal q, true)
  | .escape q, _ => (.literal q, true)

/-- A character, marked when it belongs to a literal. -/
structure Mark where
  char : Char
  quoted : Bool
deriving DecidableEq, Repr

/-- The characters of a text with their marks, from a mode on. -/
def marksFrom (mode : Mode) : Text → List Mark
  | [] => []
  | c :: cs => ⟨c, (mode.step c).2⟩ :: marksFrom (mode.step c).1 cs

/-- The characters of a text with their marks. -/
def marks (t : Text) : List Mark := marksFrom .code t

/-- The closing bracket of an opening one. -/
def closer? (c : Char) : Option Char :=
  if c = '\x7b' then some '\x7d' else if c = '(' then some ')' else if c = '[' then some ']' else none

def isCloser (c : Char) : Bool := c == '\x7d' || c == ')' || c == ']'

/-- The index at which the last open bracket of a stack is closed, counted from `i`. A closing bracket
that is not the one expected is passed over. -/
def closeFrom (stack : List Char) (i : Nat) : List Mark → Option Nat
  | [] => none
  | m :: ms =>
    if m.quoted then closeFrom stack (i + 1) ms
    else
      match closer? m.char with
      | some closer => closeFrom (closer :: stack) (i + 1) ms
      | none =>
        match stack with
        | [] => closeFrom [] (i + 1) ms
        | top :: below =>
          if m.char = top then
            if below = [] then some i else closeFrom below (i + 1) ms
          else closeFrom stack (i + 1) ms

/-- The index of the bracket that closes the one at an index; literals are passed over. -/
def matchingClose? (t : Text) (start : Nat) : Option Nat := closeFrom [] start (marks (t.drop start))

/-- The change that a mark brings to the depth of brackets. -/
def Mark.depthChange (m : Mark) : Int :=
  if m.quoted then 0
  else if (closer? m.char).isSome then 1
  else if isCloser m.char then -1
  else 0

/-- The pieces between the separators at depth zero or below. -/
def splitMarks (isSeparator : Char → Bool) (depth : Int) : List Mark → List Text
  | [] => [[]]
  | m :: ms =>
    let depth := depth + m.depthChange
    if !m.quoted && depth ≤ 0 && isSeparator m.char then [] :: splitMarks isSeparator depth ms
    else
      match splitMarks isSeparator depth ms with
      | [] => [[m.char]]
      | piece :: pieces => (m.char :: piece) :: pieces

/-- The pieces of a text between the separators outside brackets and literals; blank pieces are left
out. -/
def splitTopLevel (isSeparator : Char → Bool) (t : Text) : List Text :=
  (splitMarks isSeparator 0 (marks t)).filter (!allBlank ·)

/-- Whether the first character that is not blank continues a union or an intersection. -/
def continuesUnion (ms : List Mark) : Bool :=
  match ms.dropWhile (isBlank ·.char) with
  | m :: _ => m.char == '|' || m.char == '&'
  | [] => false

/-- The number of characters of a statement at the beginning of a text: up to a semicolon at depth zero
or below, which belongs to it, or before a line feed there, which does not. A line feed ends no
statement that is still blank, and none that goes on with an operator. -/
def statementLength (depth : Int) (blank : Bool) : List Mark → Nat
  | [] => 0
  | m :: ms =>
    let next := blank && isBlank m.char
    if m.quoted || m.depthChange ≠ 0 then statementLength (depth + m.depthChange) next ms + 1
    else if depth ≤ 0 && m.char = ';' then 1
    else if depth ≤ 0 && m.char = '\n' && !blank && !continuesUnion ms then 0
    else statementLength depth next ms + 1

/-- The statement at the beginning of a text. -/
def statement (t : Text) : Text := t.take (statementLength 0 true (marks t))

/-- The rest of a literal behind its opening quote, up to its closing quote. -/
def literalRest? (quote : Char) : Text → Option Text
  | [] => none
  | ['\\'] => none
  | '\\' :: c :: cs => (literalRest? quote cs).map fun r => '\\' :: c :: r
  | c :: cs =>
    if c = quote then some [c]
    else if c = '\n' && quote ≠ '\x60' then none
    else (literalRest? quote cs).map (c :: ·)

/-- The literal or the comment at the beginning of a text: a literal stays, a comment goes. -/
def commentAt : Text → Option (Text × Nat)
  | [] => none
  | '/' :: '*' :: cs => (cut? "*/" cs).map fun (inside, _) => ([], inside.length + 4)
  | '/' :: '/' :: cs => some ([], (cs.takeWhile (· ≠ '\n')).length + 2)
  | c :: cs =>
    if isQuote c then (literalRest? c cs).map fun r => (c :: r, r.length + 1) else none

/-- The text without its comments; what looks like one in a literal stays. -/
def stripComments : Text → Text := substitute commentAt

end ClientGen.Source
