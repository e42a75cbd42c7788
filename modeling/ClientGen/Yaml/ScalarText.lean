import ClientGen.Json.Reader
import ClientGen.Yaml.Cursor
/-!
# The text of scalars

A scalar is plain, quoted or a block. Where one runs over several lines, a single break is read as a
space and of more breaks the first is dropped.
-/

namespace ClientGen.Yaml

open Cursor

/-- A break and the breaks behind it, folded. -/
def folded (first : Text) (more : Text) : Text :=
  if first ≠ ['\n'] then first ++ more
  else if more = [] then [' ']
  else more

/-! ## Plain scalars -/

/-- The length of the run of a plain scalar up to a gap, a comment or an indicator. -/
def plainLength (flow : Bool) : Text → Nat
  | [] => 0
  | c :: cs =>
    let after := cs.headD endMark
    let indicator (c : Char) : Bool := c == ',' || c == '[' || c == ']' || c == '\x7b' || c == '\x7d'
    if isGap c || (c == ':' && (isGap after || (flow && indicator after))) ||
        (flow && (c == '?' || indicator c)) then 0
    else plainLength flow cs + 1

/-- The breaks and spaces behind the first break of a plain scalar, up to a document mark. -/
def plainBreaks : (fuel : Nat) → Cursor → Option Text × Cursor
  | 0, s => (some [], s)
  | fuel + 1, s =>
    if s.next == ' ' then plainBreaks fuel s.step
    else if isBreak s.next then
      let (b, s) := s.lineBreak
      if s.atDocumentMark then (none, s)
      else
        let (bs, s) := plainBreaks fuel s
        (bs.map (b ++ ·), s)
    else (some [], s)

/-- What joins two runs of a plain scalar. -/
structure PlainGap where
  /-- The text between the runs, empty where the scalar ends. -/
  text : Text
  /-- Whether the gap holds a break. -/
  crossed : Bool
  after : Cursor

/-- The gap behind a run of a plain scalar. -/
def plainGap (s : Cursor) : PlainGap :=
  let (spaces, s) := s.span (· == ' ')
  if isBreak s.next then
    let (b, s) := s.lineBreak
    if s.atDocumentMark then ⟨[], true, s⟩
    else
      match plainBreaks s.rest.length s with
      | (some more, s) => ⟨folded b more, true, s⟩
      | (none, s) => ⟨[], true, s⟩
  else ⟨spaces, false, s⟩

/-- A plain scalar: its runs with the gaps between them. The result is the text, whether the gap at the
end holds a break, and the cursor behind that gap. -/
def plainText (flow : Bool) (indent : Int) : (fuel : Nat) → Cursor → Text × Bool × Cursor
  | 0, s => ([], false, s)
  | fuel + 1, s =>
    let n := plainLength flow s.rest
    let run := s.rest.take n
    let gap := plainGap (s.forward n)
    if gap.text = [] || gap.after.next == '#' || (!flow && (gap.after.column : Int) < indent) ||
        plainLength flow gap.after.rest = 0 then
      (run, gap.crossed, gap.after)
    else
      let (more, crossed, s) := plainText flow indent fuel gap.after
      (run ++ gap.text ++ more, crossed, s)

def plainScalar (flow : Bool) (indent : Int) (s : Cursor) : Text × Bool × Cursor :=
  plainText flow indent (s.rest.length + 1) s

/-! ## Quoted scalars -/

/-- The breaks of a quoted scalar with the blanks before and between them. A document mark is an
error. -/
def quotedBreaks : (fuel : Nat) → Cursor → Except ReadError (Text × Cursor)
  | 0, s => .ok ([], s)
  | fuel + 1, s =>
    if s.atDocumentMark then .error .malformed
    else
      let s := s.skip fun c => c == ' ' || c == '\t'
      if isBreak s.next then
        let (b, s) := s.lineBreak
        (quotedBreaks fuel s).map fun (bs, s) => (b ++ bs, s)
      else .ok ([], s)

/-- The characters of the escapes of one letter. -/
def escapes : List (Char × Char) :=
  [('0', '\x00'), ('a', '\x07'), ('b', '\x08'), ('t', '\t'), ('\t', '\t'), ('n', '\n'), ('v', '\x0b'),
    ('f', '\x0c'), ('r', '\r'), ('e', '\x1b'), (' ', ' '), ('"', '"'), ('\\', '\\'), ('/', '/'),
    ('N', '\x85'), ('_', '\xa0'), ('L', '\u2028'), ('P', '\u2029')]

/-- The number of digits behind the letter of a numeric escape. -/
def escapeDigits? (c : Char) : Option Nat :=
  if c == 'x' then some 2 else if c == 'u' then some 4 else if c == 'U' then some 8 else none

/-- The character with a number. A surrogate stands for the replacement character. -/
def numbered (code : Nat) : Except ReadError Char :=
  if 0x7FFFFFFF < code then .error .escapeOverflow
  else if 0x10FFFF < code then .error .noCharacter
  else if 0xD800 ≤ code && code < 0xE000 then .ok '\ufffd'
  else .ok (Char.ofNat code)

/-- What a backslash and the characters behind it stand for; the cursor is behind the backslash. -/
def escaped (s : Cursor) : Except ReadError (Text × Cursor) :=
  let c := s.next
  match escapes.lookup c with
  | some d => .ok ([d], s.step)
  | none =>
    match escapeDigits? c with
    | some n =>
      let digits := s.step.rest.take n
      match if digits.length = n then Json.hexNumber? digits else none with
      | some code => (numbered code).map fun c => ([c], s.forward (n + 1))
      | none => .error .malformed
    | none =>
      if isBreak c then quotedBreaks (s.rest.length + 1) s.lineBreak.2 else .error .malformed

/-- A quoted scalar behind its opening mark, and the cursor behind its closing mark. -/
def quotedText (double : Bool) : (fuel : Nat) → Cursor → Except ReadError (Text × Cursor)
  | 0, _ => .error .malformed
  | fuel + 1, s => do
    let c := s.next
    if c == '\'' && !double then
      if s.peek 1 == '\'' then
        let (t, s) ← quotedText double fuel (s.forward 2)
        return ('\'' :: t, s)
      else return ([], s.step)
    else if c == '"' && double then return ([], s.step)
    else if c == '\\' && double then
      let (a, s) ← escaped s.step
      let (t, s) ← quotedText double fuel s
      return (a ++ t, s)
    else if isGap c then
      let (blanks, s) := s.span fun c => c == ' ' || c == '\t'
      if s.next == endMark then .error .malformed
      else if isBreak s.next then
        let (b, s) := s.lineBreak
        let (more, s) ← quotedBreaks (s.rest.length + 1) s
        let (t, s) ← quotedText double fuel s
        return (folded b more ++ t, s)
      else
        let (t, s) ← quotedText double fuel s
        return (blanks ++ t, s)
    else
      let (t, s) ← quotedText double fuel s.step
      return (c :: t, s)

def quotedScalar (double : Bool) (s : Cursor) : Except ReadError (Text × Cursor) :=
  quotedText double (s.rest.length + 1) s.step

/-! ## Block scalars -/

/-- What becomes of the breaks at the end of a block. -/
inductive Chomping where
  /-- None is kept. -/
  | strip
  /-- The first is kept. -/
  | clip
  /-- All are kept. -/
  | keep
deriving DecidableEq

/-- The mark of chomping that a character is. -/
def chomping? (c : Char) : Option Chomping :=
  if c == '+' then some .keep else if c == '-' then some .strip else none

/-- The depth that a character is, from one to nine; zero is an error. -/
def depth? (c : Char) : Except ReadError (Option Nat) :=
  if c == '0' then .error .malformed
  else if Text.isDigit c then .ok (some (c.toNat - '0'.toNat))
  else .ok none

/-- The chomping and the depth behind the mark of a block, in either order. -/
def blockHeader (s : Cursor) : Except ReadError (Chomping × Option Nat × Cursor) := do
  let (chomping, depth, s) ←
    match chomping? s.next with
    | some chomping =>
      match ← depth? s.step.next with
      | some d => pure (chomping, some d, s.forward 2)
      | none => pure (chomping, none, s.step)
    | none =>
      match ← depth? s.next with
      | some d =>
        match chomping? s.step.next with
        | some chomping => pure (chomping, some d, s.forward 2)
        | none => pure (.clip, some d, s.step)
      | none => pure (.clip, none, s)
  if isSpaceOrEnd s.next then return (chomping, depth, s) else .error .malformed

/-- The breaks at the beginning of a block, and the greatest column that the spaces between them
reach. -/
def blockMargin : (fuel reached : Nat) → Cursor → Text × Nat × Cursor
  | 0, reached, s => ([], reached, s)
  | fuel + 1, reached, s =>
    if s.next == ' ' then
      let s := s.step
      blockMargin fuel (max reached s.column) s
    else if isBreak s.next then
      let (b, s) := s.lineBreak
      let (bs, reached, s) := blockMargin fuel reached s
      (b ++ bs, reached, s)
    else ([], reached, s)

/-- The cursor behind the spaces that belong to the margin. -/
def skipMargin (margin : Nat) (s : Cursor) : Cursor :=
  s.forward ((s.rest.take (margin - s.column)).takeWhile (· == ' ')).length

def blockBreaks (margin : Nat) : (fuel : Nat) → Cursor → Text × Cursor
  | 0, s => ([], s)
  | fuel + 1, s =>
    let s := skipMargin margin s
    if isBreak s.next then
      let (b, s) := s.lineBreak
      let (bs, s) := blockBreaks margin fuel s
      (b ++ bs, s)
    else ([], s)

def atBlockLine (margin : Nat) (s : Cursor) : Bool := s.column == margin && s.next != endMark

/-- The lines of a block from a line on: their text without the break at the end, that break, the empty
lines behind it and the cursor behind these. -/
def blockLines (fold : Bool) (margin : Nat) : (fuel : Nat) → Cursor → Text × Text × Text × Cursor
  | 0, s => ([], [], [], s)
  | fuel + 1, s =>
    let indented (s : Cursor) : Bool := s.next == ' ' || s.next == '\t'
    let deep := indented s
    let (content, s) := s.span fun c => !isBreak c
    let (b, s) := s.lineBreak
    let (empty, s) := blockBreaks margin (s.rest.length + 1) s
    if atBlockLine margin s then
      let between :=
        if fold && b = ['\n'] && !deep && !indented s then if empty = [] then [' '] else empty
        else b ++ empty
      let (more, last) := blockLines fold margin fuel s
      (content ++ between ++ more, last)
    else (content, b, empty, s)

/-- The block at a cursor, which is at its mark. The block is deeper than `indent`. -/
def blockScalar (fold : Bool) (indent : Int) (s : Cursor) : Except ReadError (Text × Cursor) := do
  let (chomping, depth, s) ← blockHeader s.step
  let s ← s.emptyLineRest
  let least := max 1 (indent + 1).toNat
  let (before, margin, s) :=
    match depth with
    | some d =>
      let margin := least + d - 1
      let (before, s) := blockBreaks margin (s.rest.length + 1) s
      (before, margin, s)
    | none =>
      let (before, reached, s) := blockMargin (s.rest.length + 1) 0 s
      (before, max least reached, s)
  let (text, b, empty, s) :=
    if atBlockLine margin s then
      let (text, last) := blockLines fold margin (s.rest.length + 1) s
      (before ++ text, last)
    else ([], [], before, s)
  match chomping with
  | .strip => return (text, s)
  | .clip => return (text ++ b, s)
  | .keep => return (text ++ b ++ empty, s)

end ClientGen.Yaml
