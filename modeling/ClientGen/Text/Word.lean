import ClientGen.Text.WordTable
/-!
# Word characters and identifiers

Word characters are letters and numbers of any script and the underscore. Identifiers of the
generated code are made of ASCII letters, digits, `_` and `$`.
-/

namespace ClientGen.Text

def isLetter (c : Char) : Bool := ('a' ≤ c && c ≤ 'z') || ('A' ≤ c && c ≤ 'Z')

def isDigit (c : Char) : Bool := '0' ≤ c && c ≤ '9'

/-- Whether a character is a letter, a number or the underscore. -/
def isWord (c : Char) : Bool :=
  if c.toNat < 0x80 then isLetter c || isDigit c || c == '_' else inRanges wordRanges c.toNat

def isIdentStart (c : Char) : Bool := isLetter c || c == '_' || c == '$'

def isIdentChar (c : Char) : Bool := isIdentStart c || isDigit c

/-- Whether a text is an identifier in full. -/
def isIdentifier : Text → Bool
  | [] => false
  | c :: cs => isIdentStart c && cs.all isIdentChar

end ClientGen.Text
