import ClientGen.Document.Calendar
import ClientGen.Number.Binary64
/-!
# Documents

What a JSON or YAML text denotes. Objects keep the order of their entries, and the keys of a YAML
mapping may be any scalar.
-/

namespace ClientGen

/-- A value without parts. -/
inductive Scalar where
  | null
  | bool (b : Bool)
  | int (n : Int)
  | float (x : Binary64)
  | text (t : Text)
  | date (d : Date)
  | moment (m : Moment)
  | bytes (bs : List UInt8)
deriving DecidableEq, Repr

/-- A document, or a part of one. -/
inductive Value where
  | scalar (s : Scalar)
  | list (items : List Value)
  /-- A key with its value, as an entry of an ordered list of pairs. -/
  | pair (key value : Value)
  | set (members : List Scalar)
  | object (fields : List (Scalar × Value))
deriving Repr

abbrev Fields := List (Scalar × Value)

namespace Scalar

/-- The number that a scalar is as a key; truth values count as zero and one. -/
def number? : Scalar → Option Int
  | .bool b => some (if b then 1 else 0)
  | .int n => some n
  | .float x => x.toInt?
  | _ => none

/-- Whether two scalars are the same key. Numbers are compared by value. -/
def sameKey (a b : Scalar) : Bool :=
  match a.number?, b.number? with
  | some m, some n => m = n
  | none, none =>
    match a, b with
    | .float x, .float y => x.same y
    | .moment m, .moment n => m.same n
    | _, _ => a = b
  | _, _ => false

def isTrue : Scalar → Bool
  | .null => false
  | .bool b => b
  | .int n => n ≠ 0
  | .float x => !x.isZero
  | .text t => t ≠ []
  | .bytes bs => bs ≠ []
  | .date _ | .moment _ => true

end Scalar

namespace Fields

def find? (key : Scalar) : Fields → Option Value
  | [] => none
  | (k, v) :: rest => if k.sameKey key then some v else find? key rest

def get? (key : Text) (fields : Fields) : Option Value := find? (.text key) fields

/-- The entries with a value under a key: in the place of the old value, or at the end. -/
def put (key : Scalar) (value : Value) : Fields → Fields
  | [] => [(key, value)]
  | (k, v) :: rest => if k.sameKey key then (k, value) :: rest else (k, v) :: put key value rest

def ofEntries (entries : List (Scalar × Value)) : Fields :=
  entries.foldl (fun fields (k, v) => put k v fields) []

end Fields

namespace Value

abbrev null : Value := .scalar .null

abbrev bool (b : Bool) : Value := .scalar (.bool b)

abbrev int (n : Int) : Value := .scalar (.int n)

abbrev text (t : Text) : Value := .scalar (.text t)

def text? : Value → Option Text
  | .scalar (.text t) => some t
  | _ => none

/-- The text that a value is, if it is not empty. -/
def nonemptyText? (v : Value) : Option Text := v.text?.filter (· ≠ [])

def fields? : Value → Option Fields
  | .object fs => some fs
  | _ => none

def items? : Value → Option (List Value)
  | .list vs => some vs
  | _ => none

def isNull : Value → Bool
  | .scalar .null => true
  | _ => false

/-- Whether a value counts as true: neither absent, nor false, nor zero, nor empty. -/
def isTrue : Value → Bool
  | .scalar s => s.isTrue
  | .list vs => !vs.isEmpty
  | .pair .. => true
  | .set ms => !ms.isEmpty
  | .object fs => !fs.isEmpty

end Value

end ClientGen
