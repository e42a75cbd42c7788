import ClientGen.Text.PrintableTable
/-!
# Printable characters

A character is printable when it has a visible form of its own; of the separators only the space is.
-/

namespace ClientGen.Text

/-- Whether a character is shown as itself in a quoted text. -/
def isPrintable (c : Char) : Bool :=
  if c.toNat < 0x80 then 0x20 ≤ c.toNat && c.toNat < 0x7F
  else !inRanges unprintableRanges c.toNat

end ClientGen.Text
