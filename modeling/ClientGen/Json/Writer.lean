import ClientGen.Document.Display
/-!
# Writing JSON

Objects and lists are written over several lines, two spaces deeper at each level; empty ones stand
as `{}` and `[]`. Characters beyond ASCII stand as themselves.
-/

namespace ClientGen.Json

def writeChar (c : Char) : Text :=
  if c = '"' then "\\\""
  else if c = '\\' then "\\\\"
  else if c = '\n' then "\\n"
  else if c = '\r' then "\\r"
  else if c = '\t' then "\\t"
  else if c = '\x08' then "\\b"
  else if c = '\x0c' then "\\f"
  else if c.toNat < 0x20 then "\\u" ++ Text.padded 16 4 c.toNat
  else [c]

def writeString (t : Text) : Text := '"' :: t.flatMap writeChar ++ ['"']

/-- A value without parts. Dates, moments and bytes have no form of their own and stand as texts. -/
def writeScalar : Scalar → Text
  | .null => "null"
  | .bool b => if b then "true" else "false"
  | .int n => Text.ofInt n
  | .float (.infinite negative) => if negative then "-Infinity" else "Infinity"
  | .float .nan => "NaN"
  | .float x => x.toText
  | .text t => writeString t
  | s => writeString s.toText

def keyText : Scalar → Text
  | .text t => t
  | s => writeScalar s

def newLine (level : Nat) : Text := '\n' :: List.replicate (2 * level) ' '

/-- Written parts between brackets, each on a line of its own. -/
def block (level : Nat) (opening closing : Char) (parts : List Text) : Text :=
  if parts.isEmpty then [opening, closing]
  else
    opening :: newLine (level + 1) ++ Text.join (',' :: newLine (level + 1)) parts ++
      newLine level ++ [closing]

mutual

def writeAt (level : Nat) : Value → Text
  | .scalar s => writeScalar s
  | .list vs => block level '[' ']' (writeAllAt (level + 1) vs)
  | .pair k v => block level '[' ']' [writeAt (level + 1) k, writeAt (level + 1) v]
  | .set ms => block level '[' ']' (ms.map writeScalar)
  | .object fs => block level '\x7b' '\x7d' (writeFieldsAt (level + 1) fs)
termination_by structural v => v

def writeAllAt (level : Nat) : List Value → List Text
  | [] => []
  | v :: vs => writeAt level v :: writeAllAt level vs
termination_by structural vs => vs

def writeFieldsAt (level : Nat) : List (Scalar × Value) → List Text
  | [] => []
  | (k, v) :: fs => (writeString (keyText k) ++ ": " ++ writeAt level v) :: writeFieldsAt level fs
termination_by structural fs => fs

end

def write (v : Value) : Text := writeAt 0 v

end ClientGen.Json
