import ClientGen.Number.Binary64
import ClientGen.Text.Basic
/-!
# Shortest decimal text

The text of a floating-point number has the fewest digits that read back as the number, and of
those the nearest. It is positional for numbers from `1e-04` to below `1e16`.
-/

namespace ClientGen.Binary64

/-- A positive number and the bounds of the interval that rounds to it, in units of `2 ^ unit`. -/
structure Neighbourhood where
  value : Nat
  low : Nat
  high : Nat
  unit : Int
  /-- Whether the ends belong to the interval. -/
  closed : Bool

/-- The neighbourhood of `m * 2 ^ e`. -/
def neighbourhood (m : Nat) (e : Int) : Neighbourhood where
  value := 4 * m
  low := if m = Nat.pow 2 (mantissaBits - 1) && e ≠ minExponent then 4 * m - 1 else 4 * m - 2
  high := 4 * m + 2
  unit := e - 2
  closed := m % 2 = 0

/-- Whether `d * 10 ^ k` lies in the interval. -/
def Neighbourhood.covers (b : Neighbourhood) (d : Nat) (k : Int) : Bool :=
  let x := d * Nat.pow 10 k.toNat * Nat.pow 2 (-b.unit).toNat
  let per := Nat.pow 10 (-k).toNat * Nat.pow 2 b.unit.toNat
  if b.closed then b.low * per ≤ x && x ≤ b.high * per else b.low * per < x && x < b.high * per

/-- The point of the grid `10 ^ k` below the number, and whether the point above is nearer. -/
def Neighbourhood.floor (b : Neighbourhood) (k : Int) : Nat × Bool :=
  let num := b.value * Nat.pow 2 b.unit.toNat * Nat.pow 10 (-k).toNat
  let den := Nat.pow 2 (-b.unit).toNat * Nat.pow 10 k.toNat
  let d := num / den
  let r := 2 * (num % den)
  (d, den < r || (r = den && d % 2 = 1))

/-- The exponent `p` with `10 ^ (p - 1) ≤ number < 10 ^ p`. -/
def Neighbourhood.magnitude (b : Neighbourhood) : Int :=
  let scaled := b.value * Nat.pow 2 b.unit.toNat * Nat.pow 10 400 / Nat.pow 2 (-b.unit).toNat
  let digits := (Nat.toDigits 10 scaled).length
  (digits : Int) - 400

/-- The digits and the exponent of the shortest decimal, on grids from `n` digits on. -/
def Neighbourhood.shortest (b : Neighbourhood) (p : Int) : (tries n : Nat) → Nat × Int
  | 0, n => ((b.floor (p - n)).1, p - n)
  | tries + 1, n =>
    let k := p - n
    let (d, up) := b.floor k
    match b.covers d k, b.covers (d + 1) k with
    | true, true => (if up then d + 1 else d, k)
    | true, false => (d, k)
    | false, true => (d + 1, k)
    | false, false => b.shortest p tries (n + 1)

/-- The digits of a positive number and the exponent of the power of ten behind them. -/
def decimal (m : Nat) (e : Int) : Text × Int :=
  let b := neighbourhood m e
  let (d, k) := b.shortest b.magnitude 17 1
  let digits := Text.ofNat d
  let kept := Text.dropEndWhile (· == '0') digits
  (kept, k + (digits.length - kept.length : Nat))

/-- The text of digits whose decimal point stands `point` places behind their beginning. -/
def layout (digits : Text) (point : Int) : Text :=
  let n := digits.length
  if -4 < point && point ≤ 16 then
    if point ≤ 0 then "0." ++ List.replicate (-point).toNat '0' ++ digits
    else if n ≤ point.toNat then digits ++ List.replicate (point.toNat - n) '0' ++ ".0"
    else digits.take point.toNat ++ "." ++ digits.drop point.toNat
  else
    let exponent := point - 1
    let fraction := if n ≤ 1 then [] else '.' :: digits.drop 1
    let mark : Text := if exponent < 0 then "e-" else "e+"
    digits.take 1 ++ fraction ++ mark ++ Text.padded 10 2 exponent.natAbs

def toText : Binary64 → Text
  | .finite s m e =>
    let size : Text :=
      if m = 0 then "0.0"
      else
        let (digits, k) := decimal m e
        layout digits (digits.length + k)
    if s then '-' :: size else size
  | .infinite s => if s then "-inf" else "inf"
  | .nan => "nan"

end ClientGen.Binary64
