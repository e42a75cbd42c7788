import ClientGen.Yaml.Moment
/-!
# Tags

A tag says what kind of value a node is. A plain scalar without a tag gets one from its text.
-/

namespace ClientGen.Yaml

/-- The kind of value that a node is. -/
inductive Tag where
  | null
  | bool
  | int
  | float
  | text
  | moment
  | binary
  | list
  | object
  | set
  /-- A list of objects of one entry each. -/
  | pairs
  /-- The key of objects whose entries are taken over. -/
  | merge
  /-- The key of the value that an object stands for. -/
  | default
  /-- A tag that no value has. -/
  | unknown
deriving DecidableEq, Repr

namespace Tag

/-- The beginning of the tags of YAML itself. -/
def standard : Text := "tag:yaml.org,2002:"

/-- The names of the tags behind the common beginning. -/
def names : List (Text × Tag) :=
  [("null", null), ("bool", bool), ("int", int), ("float", float), ("str", text),
    ("timestamp", moment), ("binary", binary), ("seq", list), ("map", object), ("set", set),
    ("pairs", pairs), ("omap", pairs), ("merge", merge), ("value", default)]

def ofName (name : Text) : Tag :=
  match Text.afterStart? standard name with
  | some rest => ((names.find? fun (n, _) => n = rest).map Prod.snd).getD unknown
  | none => unknown

def nullTexts : List Text := ["".toList, "~", "null", "Null", "NULL"]

/-- The plain texts of truth values, with these. -/
def boolTexts : List (Text × Bool) :=
  [("yes", true), ("Yes", true), ("YES", true), ("no", false), ("No", false), ("NO", false),
    ("true", true), ("True", true), ("TRUE", true), ("false", false), ("False", false),
    ("FALSE", false), ("on", true), ("On", true), ("ON", true), ("off", false), ("Off", false),
    ("OFF", false)]

/-- Whether a character is a digit or an underscore. -/
def isDigitOr_ (c : Char) : Bool := Text.isDigit c || c == '_'

def unsigned : Text → Text
  | c :: t => if c == '-' || c == '+' then t else c :: t
  | [] => []

/-- Whether a text is one of the places of a number in base 60 behind the first. -/
def isSixtieth : Text → Bool
  | [c] => Text.isDigit c
  | [c, d] => '0' ≤ c && c ≤ '5' && Text.isDigit d
  | _ => false

/-- Whether a text is a number in base 60 of several places. -/
def isSexagesimal (first : Char → Bool) (t : Text) : Bool :=
  match Text.splitOn ':' t with
  | (c :: cs) :: p :: ps => first c && cs.all isDigitOr_ && (p :: ps).all isSixtieth
  | _ => false

/-- Whether a text without sign is an integer. -/
def isUnsignedInt (t : Text) : Bool :=
  match t with
  | '0' :: 'b' :: ds => !ds.isEmpty && ds.all fun c => c == '0' || c == '1' || c == '_'
  | '0' :: 'x' :: ds =>
    !ds.isEmpty && ds.all fun c =>
      isDigitOr_ c || ('a' ≤ c && c ≤ 'f') || ('A' ≤ c && c ≤ 'F')
  | '0' :: ds => ds.all fun c => ('0' ≤ c && c ≤ '7') || c == '_'
  | c :: ds =>
    let first (c : Char) : Bool := '1' ≤ c && c ≤ '9'
    first c && (ds.all isDigitOr_ || isSexagesimal first t)
  | [] => false

/-- Whether a text is empty or an exponent with a sign. -/
def isExponent : Text → Bool
  | [] => true
  | e :: sign :: d :: ds =>
    (e == 'e' || e == 'E') && (sign == '-' || sign == '+') && (d :: ds).all Text.isDigit
  | _ => false

def isFloat (t : Text) : Bool :=
  let places (t : Text) : Text := t.dropWhile isDigitOr_
  let isDecimal :=
    match unsigned t with
    | c :: cs =>
      Text.isDigit c &&
        match places cs with
        | '.' :: rest => isExponent (places rest)
        | _ => false
    | [] => false
  let isFraction :=
    match t with
    | '.' :: c :: cs => Text.isDigit c && isExponent (places cs)
    | _ => false
  let isSixty :=
    match Text.cut? ['.'] (unsigned t) with
    | some (whole, rest) => isSexagesimal Text.isDigit whole && rest.all isDigitOr_
    | none => false
  let isInfinite := [".inf".toList, ".Inf", ".INF"].contains (unsigned t)
  let isNan := [".nan".toList, ".NaN", ".NAN"].contains t
  isDecimal || isFraction || isSixty || isInfinite || isNan

/-- The tag of a plain scalar. A line feed at the end of a text does not count, unless it is the whole
text. -/
def ofPlain (t : Text) : Tag :=
  let t := if t = ['\n'] then t else Text.withoutLineEnd t
  if nullTexts.contains t then null
  else if boolTexts.any fun (b, _) => b = t then bool
  else if isFloat t then float
  else if isUnsignedInt (unsigned t) then int
  else if isMoment t then moment
  else if t = ['<', '<'] then merge
  else if t = ['='] then default
  else text

end Tag

end ClientGen.Yaml
