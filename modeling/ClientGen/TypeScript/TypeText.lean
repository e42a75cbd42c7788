import ClientGen.Text.Blank
/-!
# Type texts

Two type texts that differ in their white space alone have the same normal form.
-/

namespace ClientGen.Source

open Text

/-- Whether a character needs no blank beside it. -/
def isPunctuation (c : Char) : Bool := c ∈ "<>[](){}|&,;:".toList

/-- The text without the spaces beside punctuation. -/
def tighten (t : Text) : Text :=
  go false t
where
  /-- Goes on behind a punctuation character when `behind` is set. -/
  go (behind : Bool) : Text → Text
    | [] => []
    | c :: cs =>
      if c = ' ' && (behind || (cs.head?.map isPunctuation).getD false) then go behind cs
      else c :: go (isPunctuation c) cs

/-- The normal form of a type text: single spaces, none beside punctuation, and no `;` or `,` at its
end. -/
def normalizeType (t : Text) : Text := dropEndWhile (fun c => c = ';' || c = ',') (tighten (collapse t))

end ClientGen.Source
