import ClientGen.Text.Printable
/-!
# Quoted text

`Text.quoted` shows a text between apostrophes, or between quotation marks when it holds an apostrophe
and no quotation mark. `Text.literal` writes a string literal of the generated code.
-/

namespace ClientGen.Text

/-- A character inside the given quotation mark. -/
def escapeChar (quote c : Char) : Text :=
  if c = quote || c = '\\' then ['\\', c]
  else if c = '\n' then "\\n"
  else if c = '\r' then "\\r"
  else if c = '\t' then "\\t"
  else if isPrintable c then [c]
  else if c.toNat ≤ 0xFF then "\\x" ++ padded 16 2 c.toNat
  else if c.toNat ≤ 0xFFFF then "\\u" ++ padded 16 4 c.toNat
  else "\\U" ++ padded 16 8 c.toNat

/-- A text in quotation marks, with everything escaped that has no visible form. -/
def quoted (t : Text) : Text :=
  let quote := if t.contains '\'' && !t.contains '"' then '"' else '\''
  quote :: t.flatMap (escapeChar quote) ++ [quote]

/-- A text with a backslash before each backslash and each apostrophe. -/
def escapeLiteral (t : Text) : Text :=
  t.flatMap fun c => if c = '\\' || c = '\'' then ['\\', c] else [c]

def literal (t : Text) : Text := '\'' :: escapeLiteral t ++ ['\'']

end ClientGen.Text
