import ClientGen.Document.Value
import ClientGen.Number.Shortest
import ClientGen.Text.Quoted
/-!
# The text of a value

A value stands as itself where it is printed alone: `Scalar.toText` and `Value.toText`. Inside a list or
an object it stands in brackets and with quoted texts: `Scalar.inside` and `Value.inside`.
-/

namespace ClientGen

/-- The texts in parentheses behind a name. -/
def applied (name : Text) (arguments : List Text) : Text :=
  name ++ "(" ++ Text.join ", " arguments ++ ")"

/-- The distance of a moment from universal time, inside brackets. -/
def Moment.zoneInside (ahead : Int) : Text :=
  if ahead = 0 then "datetime.timezone.utc"
  else
    let seconds (n : Int) : Text := "seconds=" ++ Text.ofInt n
    let delta :=
      if ahead < 0 then
        let rest := 86400 + 60 * ahead
        "days=-1".toList :: if rest = 0 then [] else [seconds rest]
      else [seconds (60 * ahead)]
    applied "datetime.timezone" [applied "datetime.timedelta" delta]

/-- The text of a moment inside brackets: seconds and millionths stand only when they are needed. -/
def Moment.inside (m : Moment) : Text :=
  let clock :=
    if m.micro ≠ 0 then [m.hour, m.minute, m.second, m.micro]
    else if m.second ≠ 0 then [m.hour, m.minute, m.second]
    else [m.hour, m.minute]
  let numbers := ([m.date.year, m.date.month, m.date.day] ++ clock).map Text.ofNat
  let zone :=
    match m.ahead with
    | none => []
    | some a => ["tzinfo=" ++ Moment.zoneInside a]
  applied "datetime.datetime" (numbers ++ zone)

namespace Scalar

def byteInside (quote : Char) (b : UInt8) : Text :=
  let c := Char.ofNat b.toNat
  if b.toNat < 0x80 then Text.escapeChar quote c else "\\x" ++ Text.padded 16 2 b.toNat

def bytesInside (bs : List UInt8) : Text :=
  let quote := if bs.contains 39 && !bs.contains 34 then '"' else '\''
  'b' :: quote :: bs.flatMap (byteInside quote) ++ [quote]

/-- The text of a scalar that stands alone. -/
def toText : Scalar → Text
  | .null => "None"
  | .bool b => if b then "True" else "False"
  | .int n => Text.ofInt n
  | .float x => x.toText
  | .text t => t
  | .date d => d.toText
  | .moment m => m.toText
  | .bytes bs => bytesInside bs

/-- The text of a scalar inside brackets. -/
def inside : Scalar → Text
  | .text t => Text.quoted t
  | .date d => applied "datetime.date" ([d.year, d.month, d.day].map Text.ofNat)
  | .moment m => m.inside
  | s => s.toText

end Scalar

namespace Value

mutual

/-- The text of a value inside brackets. -/
def inside : Value → Text
  | .scalar s => s.inside
  | .list vs => '[' :: Text.join ", " (insideAll vs) ++ "]"
  | .pair k v => '(' :: inside k ++ ", " ++ inside v ++ ")"
  | .set ms =>
    if ms.isEmpty then "set()" else '\x7b' :: Text.join ", " (ms.map Scalar.inside) ++ "\x7d"
  | .object fs => '\x7b' :: Text.join ", " (insideFields fs) ++ "\x7d"
termination_by structural v => v

def insideAll : List Value → List Text
  | [] => []
  | v :: vs => inside v :: insideAll vs
termination_by structural vs => vs

def insideFields : List (Scalar × Value) → List Text
  | [] => []
  | (k, v) :: fs => (k.inside ++ ": " ++ inside v) :: insideFields fs
termination_by structural fs => fs

end

/-- The text of a value that stands alone. -/
def toText : Value → Text
  | .scalar s => s.toText
  | v => v.inside

/-- The kind of a value, as it is named in a message. -/
def kindName : Value → Text
  | .scalar .null => "<class 'NoneType'>"
  | .scalar (.bool _) => "<class 'bool'>"
  | .scalar (.int _) => "<class 'int'>"
  | .scalar (.float _) => "<class 'float'>"
  | .scalar (.text _) => "<class 'str'>"
  | .scalar (.date _) => "<class 'datetime.date'>"
  | .scalar (.moment _) => "<class 'datetime.datetime'>"
  | .scalar (.bytes _) => "<class 'bytes'>"
  | .list _ => "<class 'list'>"
  | .pair .. => "<class 'tuple'>"
  | .set _ => "<class 'set'>"
  | .object _ => "<class 'dict'>"

end Value

end ClientGen
