import ClientGen.Json.Reader
import ClientGen.Yaml.Cursor
/-!
# Properties and directives

The marks with `&`, `*` and `!` that stand before a value, and the lines with `%` that stand before a
document.
-/

namespace ClientGen.Yaml

open Cursor

/-- The name of an anchor; the cursor is at its mark. -/
def anchorName (s : Cursor) : Except ReadError (Text × Cursor) :=
  let (name, s) := s.step.span isNameChar
  let closing (c : Char) : Bool :=
    c == '?' || c == ':' || c == ',' || c == ']' || c == '\x7d' || c == '%' || c == '@' || c == '\x60'
  if name ≠ [] && (isGap s.next || closing s.next) then .ok (name, s) else .error .malformed

def isTagChar (c : Char) : Bool :=
  isNameChar c || ";/?:@&=+$,_.!~*'()[]".toList.contains c

def decoded? (bytes : List Nat) : Option Text :=
  (String.fromUTF8? ⟨(bytes.map UInt8.ofNat).toArray⟩).map String.toList

/-- The bytes of the escapes `%XX` at a cursor. -/
def escapedBytes : (fuel : Nat) → Cursor → Except ReadError (List Nat × Cursor)
  | 0, s => .ok ([], s)
  | fuel + 1, s =>
    if s.next == '%' then
      match (Json.hexDigit? (s.peek 1)), (Json.hexDigit? (s.peek 2)) with
      | some a, some b =>
        (escapedBytes fuel (s.forward 3)).map fun (bs, s) => ((16 * a + b) :: bs, s)
      | _, _ => .error .malformed
    else .ok ([], s)

/-- The characters of a tag, escapes replaced. -/
def tagChars : (fuel : Nat) → Cursor → Except ReadError (Text × Cursor)
  | 0, s => .ok ([], s)
  | fuel + 1, s => do
    if s.next == '%' then
      let (bytes, s) ← escapedBytes (s.rest.length + 1) s
      let some t := decoded? bytes | .error .malformed
      let (more, s) ← tagChars fuel s
      return (t ++ more, s)
    else
      let (run, s) := s.span isTagChar
      if run = [] then return ([], s)
      let (more, s) ← tagChars fuel s
      return (run ++ more, s)

/-- The name of a tag without its handle; it has at least one character. -/
def tagSuffix (s : Cursor) : Except ReadError (Text × Cursor) := do
  if !(isTagChar s.next || s.next == '%') then .error .malformed
  tagChars (s.rest.length + 1) s

/-- A handle: an exclamation mark, alone or before a name and another exclamation mark. -/
def tagHandle (s : Cursor) : Except ReadError (Text × Cursor) :=
  if s.next ≠ '!' then .error .malformed
  else if s.step.next == ' ' then .ok (['!'], s.step)
  else
    let (name, after) := s.step.span isNameChar
    if after.next == '!' then .ok ('!' :: name ++ ['!'], after.step) else .error .malformed

/-- A tag as it is written: a handle, if it has one, and a suffix. -/
structure WrittenTag where
  handle : Option Text
  /-- What stands behind the handle. -/
  suffix : Text
deriving DecidableEq

/-- The tag at a cursor, which is at its exclamation mark. -/
def writtenTag (s : Cursor) : Except ReadError (WrittenTag × Cursor) := do
  let c := s.peek 1
  let (tag, s) ←
    if c == '<' then
      let (suffix, s) ← tagSuffix (s.forward 2)
      if s.next == '>' then pure (⟨none, suffix⟩, s.step) else .error .malformed
    else if isGap c then pure (⟨none, ['!']⟩, s.step)
    else if (s.step.rest.takeWhile fun c => !isSpaceOrEnd c).contains '!' then
      let (handle, s) ← tagHandle s
      let (suffix, s) ← tagSuffix s
      pure (⟨some handle, suffix⟩, s)
    else
      let (suffix, s) ← tagSuffix s.step
      pure (⟨some ['!'], suffix⟩, s)
  if isSpaceOrEnd s.next then return (tag, s) else .error .malformed

/-- A line before a document. -/
inductive Directive where
  /-- The version of YAML, of which only the major number counts. -/
  | version (major : Nat)
  | handle (name replacement : Text)
  | other
deriving DecidableEq

def digits (s : Cursor) : Except ReadError (Text × Cursor) :=
  let (ds, s) := s.span Text.isDigit
  if ds = [] then .error .malformed else .ok (ds, s)

/-- The directive at a cursor, which is at its percent sign. -/
def directive (s : Cursor) : Except ReadError (Directive × Cursor) := do
  let (name, s) := s.step.span isNameChar
  if name = [] || !isSpaceOrEnd s.next then .error .malformed
  let (d, s) ←
    if name = "YAML".toList then
      let (major, s) ← digits s.skipSpaces
      if s.next ≠ '.' then .error .malformed
      let (_, s) ← digits s.step
      if !isSpaceOrEnd s.next then .error .malformed
      pure (Directive.version (Json.decimalNumber major), s)
    else if name = "TAG".toList then
      let (handle, s) ← tagHandle s.skipSpaces
      if s.next ≠ ' ' then .error .malformed
      let (replacement, s) ← tagSuffix s.skipSpaces
      if !isSpaceOrEnd s.next then .error .malformed
      pure (Directive.handle handle replacement, s)
    else pure (Directive.other, s.skip fun c => !isBreak c)
  return (d, ← s.emptyLineRest)

end ClientGen.Yaml
