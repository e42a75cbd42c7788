import ClientGen.Text.Basic
/-!
# Errors in YAML

A text that breaks a rule of YAML is malformed. The other errors concern values: the text is YAML, but
nothing is denoted by one of its scalars, or a part of it has no end.
-/

namespace ClientGen.Yaml

/-- Why a text has no value as YAML. -/
inductive ReadError where
  | malformed
  /-- A character escape has no character. -/
  | noCharacter
  /-- A character escape lies beyond the numbers of 31 bits. -/
  | escapeOverflow
  | badNumber
  | emptyNumber
  | badTruth
  /-- A text does not have the form of a date or a moment. -/
  | badMoment
  /-- The calendar or the clock has no such moment. -/
  | noMoment
  /-- A part of the document contains itself. -/
  | endless
deriving DecidableEq, Repr

def ReadError.message : ReadError → Text
  | malformed => "A text is not valid YAML"
  | noCharacter => "A character escape in YAML is out of range"
  | escapeOverflow => "A character escape in YAML is too large"
  | badNumber => "A number in YAML cannot be read"
  | emptyNumber => "A number in YAML has no digits"
  | badTruth => "A truth value in YAML cannot be read"
  | badMoment => "A date in YAML cannot be read"
  | noMoment => "A date in YAML is not in the calendar"
  | endless => "A part of a YAML document contains itself"

end ClientGen.Yaml
