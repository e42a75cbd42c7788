import ClientGen.Number.Binary64
import ClientGen.Text.Blank
import ClientGen.Text.Digit
/-!
# Reading numbers

Numbers as they are written by hand: blanks around them and a sign before them are allowed, and the
digits may be those of any script.
-/

namespace ClientGen

namespace Text

/-- Whether a sign is a minus, and the text behind it. A text without sign is positive. -/
def sign : Text → Bool × Text
  | '-' :: t => (true, t)
  | '+' :: t => (false, t)
  | t => (false, t)

/-- The value of a digit in a base of at most 36. -/
def digitIn? (base : Nat) (c : Char) : Option Nat :=
  let value :=
    if isDigit c then some (c.toNat - '0'.toNat)
    else if 'a' ≤ c && c ≤ 'z' then some (c.toNat - 'a'.toNat + 10)
    else if 'A' ≤ c && c ≤ 'Z' then some (c.toNat - 'A'.toNat + 10)
    else none
  value.filter (· < base)

/-- The number that digits write in a base; there is at least one. -/
def natIn? (base : Nat) (t : Text) : Option Nat :=
  if t = [] then none else t.foldlM (fun n c => (digitIn? base c).map fun d => base * n + d) 0

/-- The letter that may stand behind a zero before the digits of a base. -/
def baseLetter? : Nat → Option Char
  | 2 => some 'b'
  | 8 => some 'o'
  | 16 => some 'x'
  | _ => none

/-- The digits behind the mark of a base, if it is written. -/
def behindBaseMark (base : Nat) : Text → Text
  | '0' :: c :: t =>
    if (baseLetter? base).any fun l => c = l || c = l.toUpper then t else '0' :: c :: t
  | t => t

/-- The number of decimal digits up to which an integer is read. -/
def maxDecimals : Nat := 4300

def intIn? (base : Nat) (t : Text) : Option Int := do
  let (negative, t) := sign (plainDigits (trim t))
  let digits := behindBaseMark base t
  if base = 10 && maxDecimals < digits.length then none
  let n ← natIn? base digits
  return if negative then -(n : Int) else n

end Text

namespace Binary64

/-- The texts of the numbers that are not finite, in lower case. -/
def names : List (Text × Binary64) :=
  [("inf", infinite false), ("infinity", infinite false), ("nan", nan)]

/-- The exponent that ends a decimal number: none, or a letter, a sign and digits. -/
def exponent? : Text → Option Int
  | [] => some 0
  | c :: t =>
    if c = 'e' || c = 'E' then
      let (negative, digits) := Text.sign t
      (Text.natIn? 10 digits).map fun n => if negative then -(n : Int) else n
    else none

/-- The number nearest to the decimal number that a text writes. -/
def ofText? (t : Text) : Option Binary64 :=
  let (negative, t) := Text.sign (Text.plainDigits (Text.trim t))
  let signed (x : Binary64) : Binary64 := if negative then x.neg else x
  match names.find? fun (name, _) => name = t.map Char.toLower with
  | some (_, x) => some (signed x)
  | none => do
    let whole := t.takeWhile Text.isDigit
    let t := t.drop whole.length
    let (places, t) :=
      match t with
      | '.' :: t => (t.takeWhile Text.isDigit, t.dropWhile Text.isDigit)
      | t => ([], t)
    let e ← exponent? t
    let digits ← Text.natIn? 10 (whole ++ places)
    return ofDecimal negative digits (e - places.length)

end Binary64

end ClientGen
