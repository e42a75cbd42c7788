import ClientGen.Text.Quoted
/-!
# Escapes in literals

What escaping does to the characters of a text, one after the other.
-/

namespace ClientGen.Text

/-- Whether a character is escaped in a literal. -/
def isEscaped (c : Char) : Bool := c = '\\' || c = '\''

theorem escapeLiteral_cons_of_escaped {c : Char} (h : isEscaped c = true) (t : Text) :
    escapeLiteral (c :: t) = '\\' :: c :: escapeLiteral t := by
  have hc : (c = '\\' || c = '\'' : Bool) = true := h
  simp only [escapeLiteral, List.flatMap_cons, hc, if_true, List.cons_append, List.nil_append]

theorem escapeLiteral_cons_of_plain {c : Char} (h : ¬isEscaped c = true) (t : Text) :
    escapeLiteral (c :: t) = c :: escapeLiteral t := by
  have hc : ¬(c = '\\' || c = '\'' : Bool) = true := h
  simp only [escapeLiteral, List.flatMap_cons, if_neg hc, List.cons_append, List.nil_append]

theorem escapeLiteral_append (a b : Text) : escapeLiteral (a ++ b) = escapeLiteral a ++ escapeLiteral b :=
  List.flatMap_append

theorem notMem_escapeLiteral {c : Char} (hc : c ≠ '\\') {t : Text} (h : c ∉ t) : c ∉ escapeLiteral t := by
  induction t with
  | nil => exact List.not_mem_nil
  | cons d t ih =>
    rw [List.mem_cons, not_or] at h
    by_cases hd : isEscaped d = true
    · simp [escapeLiteral_cons_of_escaped hd, hc, h.1, ih h.2]
    · simp [escapeLiteral_cons_of_plain hd, h.1, ih h.2]

theorem quote_ne_escapeLiteral_cons (c : Char) (t r s : Text) : '\'' :: r ≠ escapeLiteral (c :: t) ++ s := by
  intro h
  by_cases he : isEscaped c = true
  · rw [escapeLiteral_cons_of_escaped he] at h
    exact absurd (List.cons_eq_cons.1 h).1 (by decide)
  · rw [escapeLiteral_cons_of_plain he] at h
    exact he ((List.cons_eq_cons.1 h).1 ▸ by decide)

end ClientGen.Text
