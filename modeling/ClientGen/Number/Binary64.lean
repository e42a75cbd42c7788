/-!
# Binary floating-point numbers of 64 bits

A finite number is a sign, a mantissa below `2 ^ 53` and an exponent of two. Every operation
computes in integers and rounds once, to the nearest number, ties to an even mantissa.
-/

namespace ClientGen

/-- A floating-point number of 64 bits. -/
inductive Binary64 where
  /-- The number `± mantissa * 2 ^ exponent`. -/
  | finite (negative : Bool) (mantissa : Nat) (exponent : Int)
  | infinite (negative : Bool)
  | nan
deriving DecidableEq, Repr

namespace Binary64

def minExponent : Int := -1074

def maxExponent : Int := 971

/-- The numbers whose mantissa is not subnormal have one in `2 ^ 52, …, 2 ^ 53 - 1`. -/
def mantissaBits : Nat := 53

/-- The quotient to the nearest integer, ties to even. -/
def roundedQuotient (num den : Nat) : Nat :=
  let q := num / den
  let r := 2 * (num % den)
  if den < r || (den = r && q % 2 = 1) then q + 1 else q

/-- The quotient `num / den` in units of `2 ^ e`, as a fraction. -/
def inUnits (num den : Nat) (e : Int) : Nat × Nat :=
  (num * Nat.pow 2 (-e).toNat, den * Nat.pow 2 e.toNat)

/-- The number nearest to `± num / den`. -/
def ofQuotient (negative : Bool) (num den : Nat) : Binary64 :=
  if num = 0 then .finite negative 0 minExponent
  else
    -- The quotient lies in `(2 ^ (k - 1), 2 ^ (k + 1))`, so one of two exponents fits.
    let k : Int := (num.log2 : Int) - den.log2
    let low := max (k - mantissaBits) minExponent
    let fits (e : Int) : Bool :=
      let (n, d) := inUnits num den e
      n / d < Nat.pow 2 mantissaBits
    let e := if fits low then low else low + 1
    let (n, d) := inUnits num den e
    let m := roundedQuotient n d
    let (m, e) := if m = Nat.pow 2 mantissaBits then (Nat.pow 2 (mantissaBits - 1), e + 1) else (m, e)
    if maxExponent < e then .infinite negative else .finite negative m e

/-- The number nearest to `± digits * 10 ^ exponent`. -/
def ofDecimal (negative : Bool) (digits : Nat) (exponent : Int) : Binary64 :=
  let size : Int := (Nat.toDigits 10 digits).length + exponent
  if digits = 0 || size < -330 then .finite negative 0 minExponent
  else if 330 < size then .infinite negative
  else ofQuotient negative (digits * Nat.pow 10 exponent.toNat) (Nat.pow 10 (-exponent).toNat)

/-- The number nearest to an integer. -/
def ofInt (n : Int) : Binary64 := ofQuotient (n < 0) n.natAbs 1

def neg : Binary64 → Binary64
  | .finite s m e => .finite (!s) m e
  | .infinite s => .infinite (!s)
  | .nan => .nan

def signed (negative : Bool) (m : Nat) : Int := if negative then -(m : Int) else m

def add : Binary64 → Binary64 → Binary64
  | .finite s m e, .finite t n f =>
    let low := min e f
    let sum := signed s (m * Nat.pow 2 (e - low).toNat) + signed t (n * Nat.pow 2 (f - low).toNat)
    if sum = 0 then .finite (s && t) 0 minExponent
    else ofQuotient (sum < 0) (sum.natAbs * Nat.pow 2 low.toNat) (Nat.pow 2 (-low).toNat)
  | .finite .., y => y
  | x, .finite .. => x
  | .infinite s, .infinite t => if s = t then .infinite s else .nan
  | _, _ => .nan

/-- The rounded product with a natural number. -/
def scale (x : Binary64) (k : Nat) : Binary64 :=
  match x with
  | .finite s m e => ofQuotient s (m * k * Nat.pow 2 e.toNat) (Nat.pow 2 (-e).toNat)
  | .infinite s => if k = 0 then .nan else .infinite s
  | .nan => .nan

def isZero : Binary64 → Bool
  | .finite _ m _ => m = 0
  | _ => false

/-- The integer that a number is, if it is one. -/
def toInt? : Binary64 → Option Int
  | .finite s m e =>
    if 0 ≤ e then some (signed s (m * Nat.pow 2 e.toNat))
    else if m % Nat.pow 2 (-e).toNat = 0 then some (signed s (m / Nat.pow 2 (-e).toNat))
    else none
  | _ => none

/-- Whether two numbers are equal as numbers: zeros of both signs are, and what is not a number
equals nothing. -/
def same : Binary64 → Binary64 → Bool
  | .finite s m e, .finite t n f => (m = 0 && n = 0) || (s = t && m = n && e = f)
  | .infinite s, .infinite t => s = t
  | _, _ => false

end Binary64

end ClientGen
