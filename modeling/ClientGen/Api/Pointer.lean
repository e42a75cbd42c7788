import ClientGen.Schema.Basic
/-!
# Pointers

Parameters, request bodies and responses may stand elsewhere in the document, behind a reference such as
`#/parameters/Page`. `Pointer.resolve` follows such references to an object without one.
-/

namespace ClientGen.Pointer

/-- The key that a token of a pointer stands for: `~1` is a slash and `~0` a tilde. -/
def key (token : Text) : Text := Text.replace "~0" "~" (Text.replace "~1" "/" token)

def keys? (ref : Text) : Option (List Text) :=
  (Text.afterStart? "#/" ref).map fun path => (Text.splitOn '/' path).map key

/-- The value under a list of keys, one inside the other. -/
def descend? : List Text → Value → Option Value
  | [], v => some v
  | k :: ks, v => ((v.fields?).bind (·.get? k)).bind (descend? ks)

/-- The value that a local reference leads to. -/
def lookup? (document : Fields) (ref : Text) : Option Value :=
  (keys? ref).bind (descend? · (.object document))

def ref? (fields : Fields) : Option Text := (fields.get? "$ref").bind Value.nonemptyText?

mutual

def objectCount : Value → Nat
  | .scalar _ => 0
  | .list vs => objectCountAll vs
  | .pair k v => objectCount k + objectCount v
  | .set _ => 0
  | .object fs => objectCountFields fs + 1
termination_by structural v => v

def objectCountAll : List Value → Nat
  | [] => 0
  | v :: vs => objectCount v + objectCountAll vs
termination_by structural vs => vs

def objectCountFields : List (Scalar × Value) → Nat
  | [] => 0
  | (_, v) :: fs => objectCount v + objectCountFields fs
termination_by structural fs => fs

end

/-- Follows references from a value on. A reference met before, one that leads nowhere and one to
another document give nothing. The fuel bounds the number of references. -/
def follow (document : Fields) : (fuel : Nat) → (seen : List Text) → Value → Option Fields
  | 0, _, _ => none
  | fuel + 1, seen, v =>
    match v.fields? with
    | none => none
    | some fields =>
      match ref? fields with
      | none => some fields
      | some ref =>
        if ref ∈ seen then none
        else (lookup? document ref).bind (follow document fuel (ref :: seen))

/-- The object without a reference that a value leads to. Every reference but the first stands in an
object of the document, so there are not more of them than objects. -/
def resolve (document : Fields) (v : Value) : Option Fields :=
  follow document (objectCountFields document + 3) [] v

end ClientGen.Pointer
