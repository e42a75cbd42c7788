import ClientGen.Text.Word
import ClientGen.Yaml.Error
/-!
# Places in a YAML text

A cursor is a place in a text: what stands behind it, and its line and column. The readers of the
grammar ask a cursor for its next characters and move it forward.
-/

namespace ClientGen.Yaml

/-- What stands for the end of the text where the next character is asked for. -/
def endMark : Char := '\x00'

def isBreak (c : Char) : Bool :=
  c == '\r' || c == '\n' || c == '\x85' || c == '\u2028' || c == '\u2029'

/-- Whether a character ends a line or the text. -/
def isLineEnd (c : Char) : Bool := c == endMark || isBreak c

/-- Whether a character ends a line or the text, or is a space. -/
def isSpaceOrEnd (c : Char) : Bool := c == ' ' || isLineEnd c

/-- Whether a character ends a line or the text, or is a space or a tab. -/
def isGap (c : Char) : Bool := c == '\t' || isSpaceOrEnd c

def isAllowed (c : Char) : Bool :=
  Text.inRanges [(0x9, 0xA), (0xD, 0xD), (0x20, 0x7E), (0x85, 0x85), (0xA0, 0xD7FF),
    (0xE000, 0xFFFD), (0x10000, 0x10FFFF)] c.toNat

/-- Whether a character may stand in the name of an anchor or of a directive. -/
def isNameChar (c : Char) : Bool := Text.isLetter c || Text.isDigit c || c == '-' || c == '_'

/-- A place in a text. -/
structure Cursor where
  rest : Text
  /-- The number of characters before the place. -/
  index : Nat
  /-- The number of lines before the place. -/
  line : Nat
  /-- The number of characters before the place in its line. -/
  column : Nat

namespace Cursor

def ofText (t : Text) : Cursor := ⟨t, 0, 0, 0⟩

/-- The character `k` places behind the cursor. -/
def peek (s : Cursor) (k : Nat) : Char := (s.rest[k]?).getD endMark

def next (s : Cursor) : Char := s.rest.headD endMark

/-- The cursor behind the next character. A byte order mark has no width. -/
def step (s : Cursor) : Cursor :=
  match s.rest with
  | [] => s
  | c :: cs =>
    if isBreak c && !(c == '\r' && cs.head? == some '\n') then ⟨cs, s.index + 1, s.line + 1, 0⟩
    else ⟨cs, s.index + 1, s.line, if c == '\ufeff' then s.column else s.column + 1⟩

/-- The cursor behind the next `n` characters. -/
def forward (s : Cursor) : Nat → Cursor
  | 0 => s
  | n + 1 => s.step.forward n

/-- The longest run of characters that satisfy `p`, and the cursor behind it. -/
def span (p : Char → Bool) (s : Cursor) : Text × Cursor :=
  let run := s.rest.takeWhile p
  (run, s.forward run.length)

/-- The cursor behind the characters that satisfy `p`. -/
def skip (p : Char → Bool) (s : Cursor) : Cursor := (s.span p).2

/-- The cursor behind the spaces. -/
def skipSpaces (s : Cursor) : Cursor := s.skip (· == ' ')

/-- The cursor at the end of its line if a comment begins at the cursor. -/
def skipComment (s : Cursor) : Cursor :=
  if s.next == '#' then s.skip (fun c => !isBreak c) else s

/-- The break at the cursor, as it is kept in a text, and the cursor behind it. -/
def lineBreak (s : Cursor) : Text × Cursor :=
  match s.rest with
  | '\r' :: '\n' :: _ => (['\n'], s.forward 2)
  | c :: _ =>
    if c == '\r' || c == '\n' || c == '\x85' then (['\n'], s.step)
    else if isBreak c then ([c], s.step)
    else ([], s)
  | [] => ([], s)

/-- Whether the mark that ends or begins a document stands at the cursor. -/
def atDocumentMark (s : Cursor) : Bool :=
  match s.rest with
  | '-' :: '-' :: '-' :: cs => isGap (cs.headD endMark)
  | '.' :: '.' :: '.' :: cs => isGap (cs.headD endMark)
  | _ => false

/-- Whether the next character is the last of its word. -/
def endsWord (s : Cursor) : Bool := isGap (s.peek 1)

/-- The rest of a line that holds only spaces and a comment, with its break. -/
def emptyLineRest (s : Cursor) : Except ReadError Cursor :=
  let s := s.skipSpaces.skipComment
  if isLineEnd s.next then .ok s.lineBreak.2 else .error .malformed

end Cursor

end ClientGen.Yaml
