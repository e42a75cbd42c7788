import ClientGen.Text.Table
import ClientGen.Yaml.Tag
import ClientGen.Yaml.Token
/-!
# Nodes

The tokens of a document form a tree of scalars, lists and objects, each with a tag. An alias stands
for the node with its anchor, so no alias is left in the tree.
-/

namespace ClientGen.Yaml

/-- A node of a document. -/
inductive Node where
  | scalar (tag : Tag) (text : Text)
  | list (tag : Tag) (items : List Node)
  /-- An object, as the list of its entries. -/
  | object (tag : Tag) (entries : List (Node × Node))
  /-- A repetition of a list or an object around it, which has no end. -/
  | endless

def Node.tag : Node → Tag
  | .scalar t _ => t
  | .list t _ => t
  | .object t _ => t
  | .endless => .unknown

/-- The node that stands where nothing is written. -/
def Node.absent : Node := .scalar .null []

/-- What is left to read of a document, and the nodes with anchors so far. A node that is not yet read
to its end is `none`. -/
structure Remaining where
  tokens : List Token
  anchors : Table (Option Node)

abbrev Reading (α : Type) := StateT Remaining (Except ReadError) α

namespace Reading

def peek : Reading (Option Token) := return (← get).tokens.head?

def drop : Reading Unit := modify fun s => { s with tokens := s.tokens.drop 1 }

/-- Whether the next token is `t`, which is passed over. -/
def accept (t : Token) : Reading Bool := do
  if (← peek) = some t then
    drop
    return true
  else return false

/-- Passes over `t`; any other token is an error. -/
def expect (t : Token) : Reading Unit := do
  if !(← accept t) then throw .malformed

/-- Whether the next token is one of `ts`, or there is none. -/
def atAny (ts : List Token) : Reading Bool := do
  match ← peek with
  | some t => return ts.contains t
  | none => return true

def aliased (name : Text) : Reading Node := do
  match (← get).anchors.get? name with
  | some (some n) => return n
  | some none => return .endless
  | none => throw .malformed

/-- Notes that a node with an anchor begins. No two nodes have the same anchor. -/
def openAnchor : Option Text → Reading Unit
  | none => return ()
  | some name => do
    if (← get).anchors.has name then throw .malformed
    modify fun s => { s with anchors := s.anchors.put name none }

def closeAnchor (name : Option Text) (n : Node) : Reading Node := do
  match name with
  | none => return n
  | some name =>
    modify fun s => { s with anchors := s.anchors.put name (some n) }
    return n

end Reading

open Reading

/-- The properties of a node. -/
structure Properties where
  anchor : Option Text
  tag : Option Text

namespace Properties

/-- The tag of a scalar. Without a tag the text of a plain scalar decides, and with the tag `!` the
text of any scalar. -/
def scalarTag (p : Properties) (text : Text) (plain : Bool) : Tag :=
  match p.tag with
  | none => if plain then .ofPlain text else .text
  | some t => if t = ['!'] then .ofPlain text else .ofName t

/-- The tag of a list or an object that has `tag` when none is written. -/
def partsTag (p : Properties) (tag : Tag) : Tag :=
  match p.tag with
  | none => tag
  | some t => if t = ['!'] then tag else .ofName t

end Properties

def WrittenTag.name (handles : Table Text) (t : WrittenTag) : Reading Text :=
  match t.handle with
  | none => return t.suffix
  | some h =>
    match handles.get? h with
    | some replacement => return replacement ++ t.suffix
    | none => throw .malformed

/-- The anchor and the tag before a node, in either order. -/
def properties (handles : Table Text) : Reading Properties := do
  let anchor? : Reading (Option Text) := do
    match ← peek with
    | some (.anchor name) =>
      drop
      return some name
    | _ => return none
  let tag? : Reading (Option Text) := do
    match ← peek with
    | some (.tag t) =>
      drop
      return some (← t.name handles)
    | _ => return none
  let anchor ← anchor?
  let tag ← tag?
  let anchor ← if anchor.isNone then anchor? else pure anchor
  return ⟨anchor, tag⟩

/-- Where a node stands: by lines, where also a list without its own column may stand, or inside
brackets. -/
inductive Place where
  | block
  /-- By lines, as the key or the value of an object. -/
  | entry
  | flow
deriving DecidableEq

mutual

/-- A node. The fuel bounds the number of steps. -/
def node (handles : Table Text) : (fuel : Nat) → Place → Reading Node
  | 0, _ => throw .malformed
  | fuel + 1, place => do
    if let some (.reference name) ← peek then
      drop
      return ← aliased name
    let p ← properties handles
    openAnchor p.anchor
    let n ←
      match ← peek with
      | some (.scalar text plain) =>
        drop
        pure (.scalar (p.scalarTag text plain) text)
      | some .openList =>
        drop
        pure (.list (p.partsTag .list) (← flowItems handles fuel true))
      | some .openObject =>
        drop
        pure (.object (p.partsTag .object) (← flowEntries handles fuel true))
      | some .item =>
        if place = .entry then
          pure (.list (p.partsTag .list) (← looseItems handles fuel))
        else nothing p
      | some .blockList =>
        if place = .flow then nothing p
        else
          drop
          pure (.list (p.partsTag .list) (← blockItems handles fuel))
      | some .blockObject =>
        if place = .flow then nothing p
        else
          drop
          pure (.object (p.partsTag .object) (← blockEntries handles fuel))
      | _ => nothing p
    closeAnchor p.anchor n
where
  /-- Nothing may stand only behind an anchor or a tag. -/
  nothing (p : Properties) : Reading Node :=
    if p.anchor.isNone && p.tag.isNone then throw .malformed
    else return .scalar (p.scalarTag [] true) []

/-- A node, or the absent one before the tokens `ends`. -/
def nodeBefore (handles : Table Text) (fuel : Nat) (place : Place) (ends : List Token) :
    Reading Node :=
  match fuel with
  | 0 => throw .malformed
  | fuel + 1 => do
    if ← atAny ends then return .absent
    node handles fuel place

/-- The value of an entry, if a colon is written, and else the absent node. -/
def valueBefore (handles : Table Text) (fuel : Nat) (place : Place) (ends : List Token) :
    Reading Node :=
  match fuel with
  | 0 => throw .malformed
  | fuel + 1 => do
    if ← accept .value then nodeBefore handles fuel place ends else return .absent

/-- The items of a list by lines, to its end. -/
def blockItems (handles : Table Text) : (fuel : Nat) → Reading (List Node)
  | 0 => throw .malformed
  | fuel + 1 => do
    if ← accept .item then
      let n ← nodeBefore handles fuel .block [.item, .blockEnd]
      return n :: (← blockItems handles fuel)
    else
      expect .blockEnd
      return []

/-- The items of a list by lines in the column of its object. -/
def looseItems (handles : Table Text) : (fuel : Nat) → Reading (List Node)
  | 0 => throw .malformed
  | fuel + 1 => do
    if ← accept .item then
      let n ← nodeBefore handles fuel .block [.item, .key, .value, .blockEnd]
      return n :: (← looseItems handles fuel)
    else return []

/-- The entries of an object by lines, to its end. -/
def blockEntries (handles : Table Text) : (fuel : Nat) → Reading (List (Node × Node))
  | 0 => throw .malformed
  | fuel + 1 => do
    if ← accept .key then
      let k ← nodeBefore handles fuel .entry [.key, .value, .blockEnd]
      let v ← valueBefore handles fuel .entry [.key, .value, .blockEnd]
      return (k, v) :: (← blockEntries handles fuel)
    else
      expect .blockEnd
      return []

/-- The items of a list in brackets, to the closing one. A key begins an object of one entry. -/
def flowItems (handles : Table Text) : (fuel : Nat) → (first : Bool) → Reading (List Node)
  | 0, _ => throw .malformed
  | fuel + 1, first => do
    if ← accept .closeList then return []
    if !first then expect .comma
    if ← accept .closeList then return []
    let n ←
      if ← accept .key then
        let k ← nodeBefore handles fuel .flow [.value, .comma, .closeList]
        let v ← valueBefore handles fuel .flow [.comma, .closeList]
        pure (.object .object [(k, v)])
      else node handles fuel .flow
    return n :: (← flowItems handles fuel false)

/-- The entries of an object in braces, to the closing one. -/
def flowEntries (handles : Table Text) : (fuel : Nat) → (first : Bool) → Reading (List (Node × Node))
  | 0, _ => throw .malformed
  | fuel + 1, first => do
    if ← accept .closeObject then return []
    if !first then expect .comma
    if ← accept .closeObject then return []
    let entry ←
      if ← accept .key then
        let k ← nodeBefore handles fuel .flow [.value, .comma, .closeObject]
        let v ← valueBefore handles fuel .flow [.comma, .closeObject]
        pure (k, v)
      else pure (← node handles fuel .flow, .absent)
    return entry :: (← flowEntries handles fuel false)

end

/-- The handles that need no directive. -/
def standardHandles : Table Text := [("!", "!"), ("!!", Tag.standard)]

/-- The handles that the directives at the beginning name, each once; the version is given at most
once and is a version 1. -/
def handlesOf : (named : Table Text) → (versioned : Bool) → List Token →
    Except ReadError (Table Text × List Token)
  | named, versioned, .directive d :: ts =>
    match d with
    | .version major =>
      if versioned || major ≠ 1 then .error .malformed else handlesOf named true ts
    | .handle name replacement =>
      if named.has name then .error .malformed
      else handlesOf (named.put name replacement) versioned ts
    | .other => handlesOf named versioned ts
  | named, _, ts =>
    .ok (standardHandles.foldl (fun t (h, r) => if t.has h then t else t.put h r) named, ts)

/-- The node of a document whose directives and mark are read, and the tokens behind it. -/
def documentNode (handles : Table Text) (ts : List Token) : Except ReadError (Node × List Token) :=
  ((node handles (8 * ts.length + 8) .block).run ⟨ts, []⟩).map fun (n, s) => (n, s.tokens)

/-- The node of the only document of a text, if there is one. -/
def Node.ofTokens (ts : List Token) : Except ReadError (Option Node) := do
  let (n, rest) ←
    match ts with
    | [] => return none
    | .directive _ :: _ | .documentStart :: _ =>
      let (handles, ts) ← handlesOf [] false ts
      match ts with
      | .documentStart :: ts =>
        match ts with
        | [] | .directive _ :: _ | .documentStart :: _ | .documentEnd :: _ => pure (.absent, ts)
        | _ => documentNode handles ts
      | _ => .error .malformed
    | _ => documentNode standardHandles ts
  if rest.all (· = .documentEnd) then return some n else .error .malformed

end ClientGen.Yaml
