import ClientGen.Text.CaseTable
/-!
# Upper and lower case

The full case mappings: one character may become several, and a capital sigma at the end of a word
becomes a final sigma.
-/

namespace ClientGen.Text

/-- The counterpart of a code in the first run that holds it. -/
def caseShift? (runs : List CaseRun) (n : Nat) : Option Nat :=
  (runs.find? fun r => r.first ≤ n && n ≤ r.last && (n - r.first) % r.step == 0).map
    fun r => ((n : Int) + r.shift).toNat

def upperChar (c : Char) : Text :=
  if c.toNat < 0x80 then [c.toUpper]
  else
    match upperExpansions.lookup c.toNat with
    | some codes => codes.map Char.ofNat
    | none => [((caseShift? upperRuns c.toNat).map Char.ofNat).getD c]

/-- The lower case of a character that is not a capital sigma. -/
def lowerChar (c : Char) : Text :=
  if c.toNat < 0x80 then [c.toLower]
  else if c.toNat = 0x130 then ['i', '\u0307']
  else [((caseShift? lowerRuns c.toNat).map Char.ofNat).getD c]

/-- Whether the first character that case does not ignore is cased. -/
def startsCased : Text → Bool
  | [] => false
  | c :: cs =>
    if inRanges caseIgnorableRanges c.toNat then startsCased cs
    else inRanges casedRanges c.toNat

def upper (t : Text) : Text := t.flatMap upperChar

def lower (t : Text) : Text :=
  go [] t
where
  /-- Lowers the text that follows the characters `before`, the nearest of them first. -/
  go (before : Text) : Text → Text
    | [] => []
    | c :: cs =>
      let low :=
        if c = 'Σ' then [if startsCased before && !startsCased cs then 'ς' else 'σ']
        else lowerChar c
      low ++ go (c :: before) cs

/-- The text with its first character in upper case. -/
def capitalize : Text → Text
  | [] => []
  | c :: cs => upperChar c ++ cs

/-- The text with its first character in lower case. -/
def decapitalize : Text → Text
  | [] => []
  | c :: cs => lower [c] ++ cs

end ClientGen.Text
