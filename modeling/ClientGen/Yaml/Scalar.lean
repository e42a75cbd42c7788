import ClientGen.Document.Value
import ClientGen.Number.Read
import ClientGen.Text.Case
import ClientGen.Yaml.Cursor
import ClientGen.Yaml.Tag
/-!
# Values of scalars

What the text of a scalar denotes under a tag.
-/

namespace ClientGen.Yaml

/-- The sum of the places of a number in base 60, the last place first. -/
def sixtieths {α : Type} (add : α → α → α) (scale : α → Nat → α) (zero : α) (places : List α) : α :=
  go 1 zero places
where
  /-- Adds the places from the weight on. -/
  go (weight : Nat) (sum : α) : List α → α
    | [] => sum
    | p :: ps => go (60 * weight) (add sum (scale p weight)) ps

def orFail {α : Type} (e : ReadError) : Option α → Except ReadError α
  | some a => .ok a
  | none => .error e

/-- The integer of a text. Underscores do not count; `0b`, `0x` and `0` mark other bases. -/
def readInt (t : Text) : Except ReadError Int :=
  let (negative, t) := Text.sign (t.filter (· ≠ '_'))
  let n :=
    match t with
    | '0' :: 'b' :: ds => Text.intIn? 2 ds
    | '0' :: 'x' :: ds => Text.intIn? 16 ds
    | '0' :: _ => Text.intIn? 8 t
    | _ =>
      if t.contains ':' then
        ((Text.splitOn ':' t).reverse.mapM (Text.intIn? 10)).map
          (sixtieths (· + ·) (fun p w => p * w) 0)
      else Text.intIn? 10 t
  if t = [] then .error .emptyNumber
  else orFail .badNumber (n.map fun n => if negative then -n else n)

/-- The floating-point number of a text. Underscores do not count. -/
def readFloat (t : Text) : Except ReadError Binary64 :=
  let t := Text.lower (t.filter (· ≠ '_'))
  let (negative, unsigned) := Text.sign t
  let x :=
    if unsigned = ".inf".toList then some (.infinite false)
    else if unsigned = ".nan".toList then some .nan
    else if unsigned.contains ':' then
      ((Text.splitOn ':' unsigned).reverse.mapM Binary64.ofText?).map
        (sixtieths Binary64.add Binary64.scale (.ofInt 0))
    else Binary64.ofText? unsigned
  if t = [] then .error .emptyNumber
  else orFail .badNumber (x.map fun x => if negative then x.neg else x)

def readBool (t : Text) : Except ReadError Bool :=
  let t := Text.lower t
  orFail .badTruth ((Tag.boolTexts.find? fun (b, _) => b = t).map Prod.snd)

/-- The date or moment of a text. -/
def readMoment (t : Text) : Except ReadError Scalar :=
  match WrittenMoment.read? t with
  | none => .error .badMoment
  | some (.date d) => if d.isValid then .ok (.date d) else .error .noMoment
  | some (.moment m) => if m.isValid then .ok (.moment m) else .error .noMoment

/-- The six bits of a character in base 64. -/
def sixBits? (c : Char) : Option Nat :=
  if 'A' ≤ c && c ≤ 'Z' then some (c.toNat - 'A'.toNat)
  else if 'a' ≤ c && c ≤ 'z' then some (c.toNat - 'a'.toNat + 26)
  else if Text.isDigit c then some (c.toNat - '0'.toNat + 52)
  else if c = '+' then some 62
  else if c = '/' then some 63
  else none

/-- The bytes of a text in base 64: `pending` holds the bits of the last `count` characters of a group
of four, and `pads` counts the padding behind them. Other characters do not count. -/
def base64? (pending count pads : Nat) : Text → Option (List UInt8)
  | [] => if count = 0 then some [] else none
  | c :: t =>
    if c = '=' then
      if 2 ≤ count then
        if 4 ≤ count + pads + 1 then some [] else base64? pending count (pads + 1) t
      else base64? pending count pads t
    else
      match sixBits? c with
      | none => base64? pending count pads t
      | some bits =>
        let all := 64 * pending + bits
        match count with
        | 0 => base64? bits 1 0 t
        | 1 => (base64? (all % 16) 2 0 t).map (UInt8.ofNat (all / 16) :: ·)
        | 2 => (base64? (all % 4) 3 0 t).map (UInt8.ofNat (all / 4) :: ·)
        | _ => (base64? 0 0 0 t).map (UInt8.ofNat all :: ·)

def readBytes (t : Text) : Except ReadError (List UInt8) :=
  if t.any fun c => 0x80 ≤ c.toNat then .error .malformed
  else orFail .malformed (base64? 0 0 0 t)

/-- The value of a scalar. Under tags of other values it has none. -/
def readScalar (tag : Tag) (t : Text) : Except ReadError Scalar :=
  match tag with
  | .null => .ok .null
  | .bool => (readBool t).map .bool
  | .int => (readInt t).map .int
  | .float => (readFloat t).map .float
  | .text => .ok (.text t)
  | .moment => readMoment t
  | .binary => (readBytes t).map .bytes
  | .list | .object | .set | .pairs | .merge | .default | .unknown => .error .malformed

end ClientGen.Yaml
