import ClientGen.Proofs.Naming
import ClientGen.TypeScript.Declared
/-!
# Words at the beginning of lines

How the words with which declarations and functions begin are passed over.
-/

namespace ClientGen.Source

open Text

theorem afterWord?_append {c : Char} (hc : isBlank c = true) (word t : Text) :
    afterWord? word (word ++ c :: t) = some (trimStart t) := by
  simp [afterWord?, afterStart?_append, hc]

theorem afterWord?_cons_of_ne {a b : Char} (h : a ≠ b) (word t : Text) :
    afterWord? (a :: word) (b :: t) = none := by
  simp [afterWord?, afterStart?, h]

theorem skipMargin_cons {c : Char} (h : c ≠ ' ' ∧ c ≠ '\t') (t : Text) : skipMargin (c :: t) = c :: t := by
  simp [skipMargin, h]

theorem afterWord?_export (t : Text) (ht : trimStart t = t) :
    afterWord? "export" (skipMargin ("export ".toList ++ t)) = some t := by
  have hsplit : "export ".toList ++ t = "export".toList ++ ' ' :: t := by simp
  have hskip : skipMargin ("export ".toList ++ t) = "export ".toList ++ t :=
    skipMargin_cons (by decide) _
  rw [hskip, hsplit, afterWord?_append (by decide), ht]

theorem trimStart_identifier {n : Text} (h : isIdentifier n = true) (t : Text) :
    trimStart (n ++ t) = n ++ t := by
  obtain ⟨c, cs, rfl, hc, -⟩ := isIdentifier_iff.1 h
  exact trimStart_cons (isBlank_of_isIdentChar (isIdentChar_of_isIdentStart hc)) (cs ++ t)

end ClientGen.Source
