import ClientGen.Document.Value
import ClientGen.Yaml.Node
import ClientGen.Yaml.Scalar
/-!
# Reading YAML

The value of a document is built from its node. Of several faults the one that lies in the fewest lists
and objects is reported, and of those the first.
-/

namespace ClientGen.Yaml

/-- A fault in a document. -/
structure Fault where
  /-- The number of lists and objects around it, from the value that is built. -/
  depth : Nat
  cause : ReadError
deriving DecidableEq

/-- What is built, or the fault that is reported. -/
abbrev Built (α : Type) := Except Fault α

namespace Built

def fail {α : Type} (cause : ReadError) : Built α := .error ⟨0, cause⟩

/-- What is built inside a list or an object. -/
def deeper {α : Type} : Built α → Built α
  | .ok a => .ok a
  | .error f => .error ⟨f.depth + 1, f.cause⟩

/-- Two parts, built one after the other. -/
def both {α β γ : Type} (join : α → β → γ) : Built α → Built β → Built γ
  | .ok a, .ok b => .ok (join a b)
  | .ok _, .error f => .error f
  | .error f, .ok _ => .error f
  | .error f, .error g => .error (if g.depth < f.depth then g else f)

end Built

/-- The key that is built. Lists and objects are no keys, whatever stands in them. -/
def asKey : Built Value → Built Scalar
  | .ok (.scalar s) => .ok s
  | .ok _ => Built.fail .malformed
  | .error f => if f.depth = 0 then .error f else Built.fail .malformed

mutual

/-- Whether the entries of a node can be taken over: it is an object or a list of objects, and so are
the nodes under merge keys in it. -/
def isMergeable : Node → Bool
  | .scalar .. => false
  | .list _ ns => areObjects ns
  | .object _ es => mergesObjects es
  | .endless => false
termination_by structural n => n

/-- Whether all nodes are objects whose merge keys stand before mergeable nodes. -/
def areObjects : List Node → Bool
  | [] => true
  | n :: ns =>
    (match n with
    | .object .. => isMergeable n
    | _ => false) && areObjects ns
termination_by structural ns => ns

/-- Whether all nodes under merge keys are mergeable. -/
def mergesObjects : List (Node × Node) → Bool
  | [] => true
  | (k, v) :: rest => (k.tag ≠ .merge || isMergeable v) && mergesObjects rest
termination_by structural es => es

end

mutual

/-- The text that a node stands for: its own, or that of the node under its default key. -/
def heldText? : Node → Option Text
  | .scalar _ t => some t
  | .list .. => none
  | .object _ es => defaultText? es
  | .endless => none
termination_by structural n => n

/-- The text that the node under the default key stands for. -/
def defaultText? : List (Node × Node) → Option Text
  | [] => none
  | (k, v) :: rest => if k.tag = .default then heldText? v else defaultText? rest
termination_by structural es => es

end

/-- A scalar, built from its text. -/
def scalarOf (tag : Tag) (t : Text) : Built Scalar :=
  match readScalar tag t with
  | .ok s => .ok s
  | .error cause => Built.fail cause

mutual

def build : Node → Built Value
  | .scalar tag t =>
    match tag with
    | .list | .object | .set | .pairs => (Built.fail .malformed).deeper
    | _ => (scalarOf tag t).map .scalar
  | .list tag ns =>
    match tag with
    | .list => (buildAll ns).deeper.map .list
    | .pairs => (buildPairs ns).deeper.map .list
    | .object | .set => (Built.fail .malformed).deeper
    | _ => Built.fail .malformed
  | .object tag es =>
    if tag = .object || tag = .set then
      if mergesObjects es then
        let entries := (Built.both (· ++ ·) (buildMerged es) (buildOwn es)).deeper
        entries.map fun es =>
          let fields := Fields.ofEntries es
          if tag = .set then .set (fields.map Prod.fst) else .object fields
      else (Built.fail .malformed).deeper
    else if tag = .list || tag = .pairs then (Built.fail .malformed).deeper
    else
      match defaultText? es with
      | some t => if tag = .moment then Built.fail .badMoment else (scalarOf tag t).map .scalar
      | none => Built.fail .malformed
  | .endless => Built.fail .endless
termination_by structural n => n

def buildAll : List Node → Built (List Value)
  | [] => .ok []
  | n :: ns => Built.both List.cons (build n) (buildAll ns)
termination_by structural ns => ns

/-- The pairs of nodes that are objects of one entry each. -/
def buildPairs : List Node → Built (List Value)
  | [] => .ok []
  | n :: ns =>
    let pair :=
      match n with
      | .object _ es => buildPair es
      | _ => Built.fail .malformed
    Built.both List.cons pair (buildPairs ns)
termination_by structural ns => ns

/-- The only entry of an object, as a pair. -/
def buildPair : List (Node × Node) → Built Value
  | [(k, v)] => Built.both .pair (build k) (build v)
  | _ => Built.fail .malformed
termination_by structural es => es

/-- The entries that do not stand under merge keys. -/
def buildOwn : List (Node × Node) → Built (List (Scalar × Value))
  | [] => .ok []
  | (k, v) :: rest =>
    if k.tag = .merge then buildOwn rest
    else
      let key :=
        match k with
        | .scalar .default t => .ok (.text t)
        | _ => asKey (build k)
      Built.both List.cons (Built.both Prod.mk key (build v)) (buildOwn rest)
termination_by structural es => es

/-- The entries taken over from under merge keys. -/
def buildMerged : List (Node × Node) → Built (List (Scalar × Value))
  | [] => .ok []
  | (k, v) :: rest =>
    if k.tag = .merge then Built.both (· ++ ·) (buildTaken v) (buildMerged rest)
    else buildMerged rest
termination_by structural es => es

/-- The entries that an object or a list of objects gives to others. -/
def buildTaken : Node → Built (List (Scalar × Value))
  | .scalar .. => .ok []
  | .list _ ns => buildTakenAll ns
  | .object _ es => Built.both (· ++ ·) (buildMerged es) (buildOwn es)
  | .endless => Built.fail .endless
termination_by structural n => n

/-- The entries of objects, those of the last object first, so that entries of the first count. -/
def buildTakenAll : List Node → Built (List (Scalar × Value))
  | [] => .ok []
  | n :: ns => Built.both (· ++ ·) (buildTakenAll ns) (buildTaken n)
termination_by structural ns => ns

end

/-- The value of the document of a text. A text without document has the absent value. -/
def read (t : Text) : Except ReadError Value := do
  match ← Node.ofTokens (← Token.ofText t) with
  | none => return .null
  | some n =>
    match build n with
    | .ok v => return v
    | .error f => throw f.cause

end ClientGen.Yaml
