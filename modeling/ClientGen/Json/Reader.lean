import ClientGen.Document.Value
import ClientGen.Text.Word
/-!
# Reading JSON

The grammar of JSON, with the three names `NaN`, `Infinity` and `-Infinity` as numbers. Of several
entries with one key the last counts, in the place of the first.
-/

namespace ClientGen.Json

/-- Why a text is not read as JSON. -/
inductive ReadError where
  | malformed
  | tooManyDigits
deriving DecidableEq, Repr

/-- The greatest number of digits of an integer that is read. -/
def maxDigits : Nat := 4300

def isSpace (c : Char) : Bool := c == ' ' || c == '\t' || c == '\n' || c == '\r'

/-- The text behind the spaces at its beginning. -/
def skipSpace (t : Text) : Text := t.dropWhile isSpace

def hexDigit? (c : Char) : Option Nat :=
  if '0' ≤ c && c ≤ '9' then some (c.toNat - '0'.toNat)
  else if 'a' ≤ c && c ≤ 'f' then some (c.toNat - 'a'.toNat + 10)
  else if 'A' ≤ c && c ≤ 'F' then some (c.toNat - 'A'.toNat + 10)
  else none

def hexNumber? (digits : Text) : Option Nat :=
  digits.foldlM (fun n c => (hexDigit? c).map fun d => 16 * n + d) 0

def decimalNumber (digits : Text) : Nat :=
  digits.foldl (fun n c => 10 * n + (c.toNat - '0'.toNat)) 0

/-- The character of an escape of one letter. -/
def shortEscape? (c : Char) : Option Char :=
  if c = '"' then some '"'
  else if c = '\\' then some '\\'
  else if c = '/' then some '/'
  else if c = 'b' then some '\x08'
  else if c = 'f' then some '\x0c'
  else if c = 'n' then some '\n'
  else if c = 'r' then some '\r'
  else if c = 't' then some '\t'
  else none

/-- The code of the escape `\uXXXX` and the text behind it. -/
def unicodeEscape? : Text → Option (Nat × Text)
  | '\\' :: 'u' :: a :: b :: c :: d :: rest => (hexNumber? [a, b, c, d]).map (·, rest)
  | _ => none

/-- The character of a code in UTF-16 and of the escape behind it, and the text behind both. A
surrogate without its partner stands for the replacement character. -/
def joinSurrogates (code : Nat) (rest : Text) : Char × Text :=
  if 0xD800 ≤ code && code < 0xDC00 then
    match unicodeEscape? rest with
    | some (low, rest') =>
      if 0xDC00 ≤ low && low < 0xE000 then
        (Char.ofNat (0x10000 + (code - 0xD800) * 0x400 + (low - 0xDC00)), rest')
      else ('\ufffd', rest)
    | none => ('\ufffd', rest)
  else if 0xDC00 ≤ code && code < 0xE000 then ('\ufffd', rest)
  else (Char.ofNat code, rest)

/-- The text of a string and what stands behind its closing mark. The fuel bounds the characters. -/
def string? : (fuel : Nat) → Text → Option (Text × Text)
  | 0, _ => none
  | fuel + 1, t =>
    match t with
    | [] => none
    | '"' :: rest => some ([], rest)
    | '\\' :: c :: rest =>
      if c = 'u' then do
        let (code, rest) ← unicodeEscape? t
        let (c, rest) := joinSurrogates code rest
        let (s, rest) ← string? fuel rest
        return (c :: s, rest)
      else do
        let c ← shortEscape? c
        let (s, rest) ← string? fuel rest
        return (c :: s, rest)
    | c :: rest =>
      if c.toNat < 0x20 || c = '\\' then none
      else (string? fuel rest).map fun (s, rest) => (c :: s, rest)

/-- The fraction of a number: the digits behind a point. -/
def fraction (t : Text) : Text × Text :=
  match t with
  | '.' :: rest =>
    let digits := rest.takeWhile Text.isDigit
    if digits = [] then ([], t) else (digits, rest.dropWhile Text.isDigit)
  | _ => ([], t)

def exponent (t : Text) : Option Int × Text :=
  let signed (negative : Bool) (rest : Text) : Option Int × Text :=
    let digits := rest.takeWhile Text.isDigit
    if digits = [] then (none, t)
    else
      let n : Int := decimalNumber digits
      (some (if negative then -n else n), rest.dropWhile Text.isDigit)
  match t with
  | e :: '-' :: rest => if e = 'e' || e = 'E' then signed true rest else (none, t)
  | e :: '+' :: rest => if e = 'e' || e = 'E' then signed false rest else (none, t)
  | e :: rest => if e = 'e' || e = 'E' then signed false rest else (none, t)
  | [] => (none, t)

/-- A number without its sign, and the text behind it. -/
def unsigned (negative : Bool) (t : Text) : Except ReadError (Scalar × Text) :=
  let digits :=
    match t with
    | '0' :: _ => ['0']
    | _ => t.takeWhile Text.isDigit
  if digits = [] then .error .malformed
  else
    let rest := t.drop digits.length
    let (places, rest) := fraction rest
    let (power?, rest) := exponent rest
    if places = [] && power?.isNone then
      if maxDigits < digits.length then .error .tooManyDigits
      else
        let n : Int := decimalNumber digits
        .ok (.int (if negative then -n else n), rest)
    else
      let mantissa := decimalNumber (digits ++ places)
      .ok (.float (.ofDecimal negative mantissa (power?.getD 0 - places.length)), rest)

/-- The names of values without parts. -/
def names : List (Text × Scalar) :=
  [("null", .null), ("true", .bool true), ("false", .bool false), ("NaN", .float .nan),
    ("Infinity", .float (.infinite false)), ("-Infinity", .float (.infinite true))]

/-- A value without parts other than a text, and the text behind it. -/
def bare (t : Text) : Except ReadError (Scalar × Text) :=
  match names.findSome? fun (name, s) => (Text.afterStart? name t).map (s, ·) with
  | some found => .ok found
  | none =>
    match t with
    | '-' :: rest => unsigned true rest
    | _ => unsigned false t

mutual

/-- A value at the beginning of a text, and the text behind it. The fuel bounds the nesting and the
number of members together. -/
def value : (fuel : Nat) → Text → Except ReadError (Value × Text)
  | 0, _ => .error .malformed
  | fuel + 1, t =>
    match t with
    | '"' :: rest =>
      match string? (rest.length + 1) rest with
      | some (s, rest) => .ok (.text s, rest)
      | none => .error .malformed
    | '[' :: rest =>
      match skipSpace rest with
      | ']' :: rest => .ok (.list [], rest)
      | rest => do
        let (vs, rest) ← elements fuel rest
        return (.list vs, rest)
    | '\x7b' :: rest =>
      match skipSpace rest with
      | '\x7d' :: rest => .ok (.object [], rest)
      | rest => do
        let (entries, rest) ← members fuel rest
        return (.object (Fields.ofEntries entries), rest)
    | _ => do
      let (s, rest) ← bare t
      return (.scalar s, rest)

def elements : (fuel : Nat) → Text → Except ReadError (List Value × Text)
  | 0, _ => .error .malformed
  | fuel + 1, t => do
    let (v, rest) ← value fuel t
    match skipSpace rest with
    | ']' :: rest => return ([v], rest)
    | ',' :: rest =>
      let (vs, rest) ← elements fuel (skipSpace rest)
      return (v :: vs, rest)
    | _ => .error .malformed

def members : (fuel : Nat) → Text → Except ReadError (List (Scalar × Value) × Text)
  | 0, _ => .error .malformed
  | fuel + 1, t =>
    match t with
    | '"' :: rest =>
      match string? (rest.length + 1) rest with
      | none => .error .malformed
      | some (key, rest) =>
        match skipSpace rest with
        | ':' :: rest => do
          let (v, rest) ← value fuel (skipSpace rest)
          match skipSpace rest with
          | '\x7d' :: rest => return ([(.text key, v)], rest)
          | ',' :: rest =>
            let (entries, rest) ← members fuel (skipSpace rest)
            return ((.text key, v) :: entries, rest)
          | _ => .error .malformed
        | _ => .error .malformed
    | _ => .error .malformed

end

def read (t : Text) : Except ReadError Value := do
  let (v, rest) ← value (t.length + 1) (skipSpace t)
  if skipSpace rest = [] then return v else .error .malformed

end ClientGen.Json
