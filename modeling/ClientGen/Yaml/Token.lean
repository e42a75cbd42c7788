import ClientGen.Yaml.Property
import ClientGen.Yaml.ScalarText
/-!
# Tokens

A YAML text is a list of tokens. The nesting of blocks shows only in the columns of the text; in the
tokens it stands as opening and closing tokens. A key without a mark is known as a key only from the
colon behind it, so its token is set before tokens that are already there.
-/

namespace ClientGen.Yaml

inductive Token where
  | directive (d : Directive)
  | documentStart
  | documentEnd
  | blockList
  | blockObject
  /-- The end of a list or an object by lines. -/
  | blockEnd
  | openList
  | closeList
  | openObject
  | closeObject
  | item
  | comma
  | key
  | value
  /-- A repetition of the value with an anchor. -/
  | reference (name : Text)
  | anchor (name : Text)
  | tag (t : WrittenTag)
  | scalar (text : Text) (plain : Bool)
deriving DecidableEq

/-- A token that may turn out to begin a key. -/
structure PossibleKey where
  /-- The number of tokens before it. -/
  number : Nat
  /-- Whether it stands where only a key may stand. -/
  required : Bool
  start : Cursor

/-- The state between two tokens. -/
structure Lexer where
  cursor : Cursor
  /-- The tokens so far, the last first. -/
  tokens : List Token
  /-- The column of the innermost block, `-1` outside all blocks. -/
  indent : Int
  /-- The columns of the blocks around it. -/
  indents : List Int
  /-- Whether a key may begin here. -/
  keyAllowed : Bool
  /-- The possible key within the innermost brackets. -/
  key : Option PossibleKey
  /-- The possible keys around the brackets, from the inside. -/
  outerKeys : List (Option PossibleKey)

namespace Lexer

def ofText (t : Text) : Lexer := ⟨.ofText t, [], -1, [], true, none, []⟩

/-- Whether the place is inside brackets or braces. -/
def inFlow (s : Lexer) : Bool := !s.outerKeys.isEmpty

def push (t : Token) (s : Lexer) : Lexer := { s with tokens := t :: s.tokens }

/-- The state after a token of `n` characters. -/
def accept (t : Token) (n : Nat) (s : Lexer) : Lexer :=
  { s.push t with cursor := s.cursor.forward n }

/-- The state with tokens set before the `number`-th. -/
def insert (number : Nat) (ts : List Token) (s : Lexer) : Lexer :=
  let behind := s.tokens.length - number
  { s with tokens := s.tokens.take behind ++ ts.reverse ++ s.tokens.drop behind }

/-- Whether a possible key can no longer be a key: its line is over, or it is too long. -/
def isOver (s : Lexer) (k : PossibleKey) : Bool :=
  k.start.line != s.cursor.line || 1024 < s.cursor.index - k.start.index

/-- The possible key unless it is over. It is an error that a required key is over. -/
def stillOpen (s : Lexer) : Option PossibleKey → Except ReadError (Option PossibleKey)
  | none => .ok none
  | some k =>
    if !s.isOver k then .ok (some k)
    else if k.required then .error .malformed
    else .ok none

/-- The state without the possible keys that are over. -/
def closeOver (s : Lexer) : Except ReadError Lexer := do
  let key ← s.stillOpen s.key
  let outerKeys ← s.outerKeys.mapM s.stillOpen
  return { s with key, outerKeys }

/-- The state without a possible key within the innermost brackets. -/
def dropKey (s : Lexer) : Except ReadError Lexer :=
  if s.key.any (·.required) then .error .malformed else .ok { s with key := none }

/-- The state with the place as a possible key, where one is allowed. -/
def noteKey (s : Lexer) : Except ReadError Lexer :=
  if s.keyAllowed then do
    let required := !s.inFlow && s.indent == (s.cursor.column : Int)
    let s ← s.dropKey
    return { s with key := some ⟨s.tokens.length, required, s.cursor⟩ }
  else .ok s

/-- Closes the blocks that are deeper than a column. -/
def unwindTo (column : Int) (s : Lexer) : Lexer :=
  if s.inFlow then s else go s.indents s
where
  /-- Closes blocks as long as blocks are around them. -/
  go : List Int → Lexer → Lexer
    | [], s => s
    | outer :: indents, s =>
      if column < s.indent then go indents { s.push .blockEnd with indent := outer, indents }
      else s

/-- Opens a block at a column, if the column is deeper than the innermost block. -/
def indentTo (column : Int) (opening : Lexer → Lexer) (s : Lexer) : Lexer :=
  if s.indent < column then
    opening { s with indent := column, indents := s.indent :: s.indents }
  else s

/-- The cursor at the next token: spaces, comments and breaks are passed over. After a break outside
brackets a key may begin. -/
def toToken : (fuel : Nat) → Lexer → Lexer
  | 0, s => s
  | fuel + 1, s =>
    let c := s.cursor.skipSpaces.skipComment
    if isBreak c.next then
      toToken fuel { s with cursor := c.lineBreak.2, keyAllowed := s.keyAllowed || !s.inFlow }
    else { s with cursor := c }

/-- The mark of a document or a directive: all blocks are closed before it. -/
def outside (s : Lexer) : Except ReadError Lexer := do
  let s ← (s.unwindTo (-1)).dropKey
  return { s with keyAllowed := false }

/-- An opening bracket or brace. -/
def openFlow (t : Token) (s : Lexer) : Except ReadError Lexer := do
  let s ← s.noteKey
  return { s.accept t 1 with key := none, outerKeys := s.key :: s.outerKeys, keyAllowed := true }

/-- A closing bracket or brace. -/
def closeFlow (t : Token) (s : Lexer) : Except ReadError Lexer := do
  let s ← s.dropKey
  match s.outerKeys with
  | [] => .error .malformed
  | key :: outerKeys => return { s.accept t 1 with key, outerKeys, keyAllowed := false }

def comma (s : Lexer) : Except ReadError Lexer := do
  let s ← s.dropKey
  return { s.accept .comma 1 with keyAllowed := true }

/-- The dash before an item, which may begin a list. -/
def item (s : Lexer) : Except ReadError Lexer := do
  if s.inFlow || !s.keyAllowed then .error .malformed
  let s ← (s.indentTo s.cursor.column (push .blockList)).dropKey
  return { s.accept .item 1 with keyAllowed := true }

/-- The question mark before a key, which may begin an object. -/
def markedKey (s : Lexer) : Except ReadError Lexer := do
  if !s.inFlow && !s.keyAllowed then .error .malformed
  let s := if s.inFlow then s else s.indentTo s.cursor.column (push .blockObject)
  let s ← s.dropKey
  return { s.accept .key 1 with keyAllowed := !s.inFlow }

/-- The colon before a value. A possible key before it is a key now, and may begin an object. -/
def colon (s : Lexer) : Except ReadError Lexer := do
  match s.key with
  | some k =>
    let s := s.insert k.number [.key]
    let s :=
      if s.inFlow then s else s.indentTo k.start.column (insert k.number [.blockObject])
    return { s.accept .value 1 with key := none, keyAllowed := false }
  | none =>
    if !s.inFlow && !s.keyAllowed then .error .malformed
    let s := if s.inFlow then s else s.indentTo s.cursor.column (push .blockObject)
    return { s.accept .value 1 with keyAllowed := !s.inFlow }

/-- A token that may begin a key, read by `read`. -/
def content (read : Cursor → Except ReadError (Token × Cursor)) (s : Lexer) :
    Except ReadError Lexer := do
  let s ← s.noteKey
  let (t, cursor) ← read s.cursor
  return { s.push t with cursor, keyAllowed := false }

/-- A plain scalar. A key may begin behind it if a break follows. -/
def plain (s : Lexer) : Except ReadError Lexer := do
  let s ← s.noteKey
  let (text, crossed, cursor) := plainScalar s.inFlow (s.indent + 1) s.cursor
  return { s.push (.scalar text true) with cursor, keyAllowed := crossed }

def block (fold : Bool) (s : Lexer) : Except ReadError Lexer := do
  let s ← s.dropKey
  let (text, cursor) ← blockScalar fold s.indent s.cursor
  return { s.push (.scalar text false) with cursor, keyAllowed := true }

def plainBegins (s : Lexer) : Bool :=
  let c := s.cursor.next
  if c == '-' then !s.cursor.endsWord
  else if c == '?' || c == ':' then !s.inFlow && !s.cursor.endsWord
  else !isGap c && !(",[]\x7b\x7d#&*!|>'\"%@\x60".toList.contains c)

/-- Reads the token at the place, which is not at the end of the text. -/
def token (s : Lexer) : Except ReadError Lexer :=
  let c := s.cursor.next
  let named (t : Text → Token) (s : Cursor) : Except ReadError (Token × Cursor) :=
    (anchorName s).map fun (name, s) => (t name, s)
  if s.cursor.column == 0 && c == '%' then do
    let s ← s.outside
    let (d, cursor) ← directive s.cursor
    return { s.push (.directive d) with cursor }
  else if s.cursor.column == 0 && s.cursor.atDocumentMark then
    s.outside.map (accept (if c == '-' then .documentStart else .documentEnd) 3)
  else if c == '[' then s.openFlow .openList
  else if c == '\x7b' then s.openFlow .openObject
  else if c == ']' then s.closeFlow .closeList
  else if c == '\x7d' then s.closeFlow .closeObject
  else if c == ',' then s.comma
  else if c == '-' && s.cursor.endsWord then s.item
  else if c == '?' && (s.inFlow || s.cursor.endsWord) then s.markedKey
  else if c == ':' && (s.inFlow || s.cursor.endsWord) then s.colon
  else if c == '*' then s.content (named .reference)
  else if c == '&' then s.content (named .anchor)
  else if c == '!' then s.content fun s => (writtenTag s).map fun (t, s) => (.tag t, s)
  else if c == '|' && !s.inFlow then s.block false
  else if c == '>' && !s.inFlow then s.block true
  else if c == '\'' || c == '"' then
    s.content fun s => (quotedScalar (c == '"') s).map fun (t, s) => (.scalar t false, s)
  else if s.plainBegins then s.plain
  else .error .malformed

/-- Reads tokens to the end of the text. Every token takes at least one character. -/
def run : (fuel : Nat) → Lexer → Except ReadError Lexer
  | 0, s => .ok s
  | fuel + 1, s => do
    let s ← (s.toToken (s.cursor.rest.length + 1)).closeOver
    let s := s.unwindTo s.cursor.column
    if s.cursor.rest = [] then s.outside
    else
      let s ← s.token
      run fuel s

end Lexer

/-- The tokens of a text. A byte order mark at its beginning is passed over. -/
def Token.ofText (t : Text) : Except ReadError (List Token) :=
  if !t.all isAllowed then .error .malformed
  else
    let start := Lexer.ofText t
    let start := if t.head? = some '\ufeff' then { start with cursor := start.cursor.step } else start
    (start.run (t.length + 1)).map fun s => s.tokens.reverse

end ClientGen.Yaml
