import ClientGen.Number.Read
import ClientGen.Proofs.Text.Numerals
import ClientGen.Proofs.TypeScript.Members
import Mathlib.Data.Set.Function
/-!
# Unions of literals read back

A union of literals is cut at its operators outside the literals, and each piece gives its value. So unions of
different values have different texts, whatever quotes, backslashes and operators stand in the values.
-/

namespace ClientGen.Source

open Text

/-! ## Reading -/

/-- The texts between the operators ` | ` outside literals. -/
def splitUnion : List Mark → List Text
  | ⟨' ', false⟩ :: ⟨'|', false⟩ :: ⟨' ', false⟩ :: ms => [] :: splitUnion ms
  | m :: ms => onFirst [m.char] (splitUnion ms)
  | [] => [[]]

/-- The alternatives of a union; blank pieces are left out. -/
def alternatives (t : Text) : List Text := (splitUnion (marks t)).filter (!allBlank ·)

/-- The integer that decimal digits write, behind a minus sign when it is negative. -/
def decimal? : Text → Option Int
  | '-' :: digits => (natIn? 10 digits).map fun n => -(n : Int)
  | digits => (natIn? 10 digits).map Int.ofNat

/-- The value of a literal: a text in quotes, a truth value, `null` or an integer. -/
def literalValue? (t : Text) : Option Value :=
  if startsWith ['\''] t then some (.text (unquote t))
  else if t = "true" then some (.bool true)
  else if t = "false" then some (.bool false)
  else if t = "null" then some .null
  else (decimal? t).map .int

/-- The values of a union of literals. -/
def unionValues? (t : Text) : Option (List Value) := (alternatives t).mapM literalValue?

/-- A value whose literal tells it: `null`, a truth value, an integer or a text on one line. -/
inductive IsPlainValue : Value → Prop
  | null : IsPlainValue .null
  | bool (b : Bool) : IsPlainValue (.bool b)
  | int (n : Int) : IsPlainValue (.int n)
  | text {t : Text} (h : '\n' ∉ t) : IsPlainValue (.text t)

theorem IsPlainValue.isEnumValue {v : Value} (h : IsPlainValue v) : IsEnumValue v := by
  cases h with
  | null => exact ⟨_, rfl, nofun⟩
  | bool b => exact ⟨_, rfl, nofun⟩
  | int n => exact ⟨_, rfl, nofun⟩
  | text h => exact ⟨_, rfl, fun _ ht => Scalar.text.inj ht ▸ h⟩

/-! ## Texts in quotes -/

/-- Reading an escaped text takes back what was escaped, first the quotes and then the backslashes. -/
private theorem replace_replace_escapeLiteral (t : Text) :
    replace "\\\\" "\\" (replace "\\'" "'" (escapeLiteral t)) = t := by
  induction t with
  | nil => rfl
  | cons c t ih =>
    by_cases he : isEscaped c = true
    · rw [escapeLiteral_cons_of_escaped he]
      simp only [isEscaped, Bool.or_eq_true, decide_eq_true_eq] at he
      rcases he with rfl | rfl
      · -- The second backslash escapes no quote: what is escaped behind it begins with none.
        have hfirst : ¬"\\'".toList <+: '\\' :: '\\' :: escapeLiteral t := by simp
        have hsecond : ¬"\\'".toList <+: '\\' :: escapeLiteral t := by
          rintro ⟨r, hr⟩
          have hquote : '\'' :: r = escapeLiteral t := (List.cons_eq_cons.1 hr).2
          cases t with
          | nil => cases hquote
          | cons d t => exact quote_ne_escapeLiteral_cons d t r [] (by simpa using hquote)
        rw [replace_cons hfirst, replace_cons hsecond]
        have hpair := replace_append (p := "\\\\") (by decide) "\\" (replace "\\'" "'" (escapeLiteral t))
        rw [ih] at hpair
        exact hpair
      · have hpair := replace_append (p := "\\'") (by decide) "'" (escapeLiteral t)
        have hquote : ¬"\\\\".toList <+: '\'' :: replace "\\'" "'" (escapeLiteral t) := by simp
        have hread := replace_cons hquote "\\"
        rw [ih] at hread
        exact (congrArg _ hpair).trans hread
    · have hc : c ≠ '\\' := by
        rintro rfl
        exact he (by decide)
      have hquote (u : Text) : ¬"\\'".toList <+: c :: u := by simp [Ne.symm hc]
      have hslash (u : Text) : ¬"\\\\".toList <+: c :: u := by simp [Ne.symm hc]
      rw [escapeLiteral_cons_of_plain he, replace_cons (hquote _), replace_cons (hslash _), ih]

theorem unquote_literal (t : Text) : unquote (literal t) = t := by
  rw [literal, unquote_between, replace_replace_escapeLiteral]

/-! ## Decimal digits -/

private theorem foldlM_digits {t : Text} (h : ∀ c ∈ t, isDigit c = true) (n : Nat) :
    t.foldlM (fun n c => (digitIn? 10 c).map fun d => 10 * n + d) n = some (Nat.ofDigitChars 10 t n) := by
  induction t generalizing n with
  | nil => rfl
  | cons c t ih =>
    have hc := h c List.mem_cons_self
    have hdigit : digitIn? 10 c = some (c.toNat - '0'.toNat) := by
      rw [digitIn?, if_pos hc]
      exact Option.filter_some_pos (decide_eq_true (digit_lt_ten hc))
    rw [List.foldlM_cons, hdigit, Nat.ofDigitChars_cons]
    exact ih (fun d hd => h d (List.mem_cons_of_mem _ hd)) _

theorem natIn?_ofNat (n : Nat) : natIn? 10 (ofNat n) = some n := by
  have hdigits : ∀ c ∈ ofNat n, isDigit c = true := fun _ => isDigit_of_mem_toDigits
  have hne : ofNat n ≠ [] := Nat.toDigits_ne_nil
  rw [natIn?, if_neg hne, foldlM_digits hdigits, ofNat, Nat.ofDigitChars_ten_toDigits]

theorem decimal?_ofInt (n : Int) : decimal? (ofInt n) = some n := by
  cases n with
  | ofNat n =>
    have hminus : ∀ digits, ofNat n ≠ '-' :: digits := fun digits h =>
      absurd (isDigit_of_mem_toDigits (n := n) (c := '-') (by rw [← ofNat, h]; exact List.mem_cons_self)) (by decide)
    rw [ofInt, decimal?, natIn?_ofNat]
    · rfl
    · exact hminus
  | negSucc n =>
    rw [ofInt, decimal?, natIn?_ofNat]
    rfl

/-! ## Literals -/

theorem literalValue?_renderLiteral {v : Value} (h : IsPlainValue v) :
    literalValue? (TypeExpr.renderLiteral v) = some v := by
  cases h with
  | null => rfl
  | bool b => cases b <;> rfl
  | int n =>
    have hread := decimal?_ofInt n
    have hne {t : Text} (ht : decimal? t = none) : ofInt n ≠ t := by
      rintro rfl
      simp [ht] at hread
    have hquote : ¬startsWith ['\''] (ofInt n) = true := by
      rw [startsWith_iff]
      rintro ⟨r, hr⟩
      exact hne (t := '\'' :: r) rfl hr.symm
    change literalValue? (ofInt n) = _
    rw [literalValue?, if_neg hquote, if_neg (hne rfl), if_neg (hne rfl), if_neg (hne rfl), hread]
    rfl
  | @text t _ =>
    have hstart : startsWith ['\''] (literal t) = true := rfl
    change literalValue? (literal t) = _
    rw [literalValue?, if_pos hstart, unquote_literal]

/-! ## Pieces -/

theorem map_char_marks (t : Text) : (marks t).map Mark.char = t := by
  have hall (mode : Mode) : (marksFrom mode t).map Mark.char = t := by
    induction t generalizing mode with
    | nil => rfl
    | cons c t ih => rw [marksFrom, List.map_cons, ih]
  exact hall .code

private theorem splitUnion_cons {m : Mark} (h : m.quoted = true ∨ m.char ≠ ' ') (ms : List Mark) :
    splitUnion (m :: ms) = onFirst [m.char] (splitUnion ms) := by
  rw [splitUnion]
  rintro _ rfl
  simp at h

private theorem onFirst_nil_splitUnion (ms : List Mark) : onFirst [] (splitUnion ms) = splitUnion ms := by
  fun_cases splitUnion ms with
  | case1 => rfl
  | case2 m ms _ => cases splitUnion ms <;> rfl
  | case3 => rfl

private theorem splitUnion_append {ms : List Mark} (h : ∀ m ∈ ms, m.quoted = true ∨ m.char ≠ ' ') (rest : List Mark) :
    splitUnion (ms ++ rest) = onFirst (ms.map Mark.char) (splitUnion rest) := by
  induction ms with
  | nil => exact (onFirst_nil_splitUnion rest).symm
  | cons m ms ih =>
    rw [List.cons_append, splitUnion_cons (h m List.mem_cons_self), ih fun m hm => h m (List.mem_cons_of_mem _ hm),
      ← onFirst_append]
    rfl

private theorem marks_noQuote {t : Text} (h : ∀ c ∈ t, isQuote c = false) : marks t = t.map (⟨·, false⟩) := by
  induction t with
  | nil => rfl
  | cons c t ih =>
    rw [marks_cons (h c List.mem_cons_self), ih fun d hd => h d (List.mem_cons_of_mem _ hd), List.map_cons]

private theorem marks_renderLiteral {v : Value} (h : IsPlainValue v) :
    ∀ m ∈ marks (TypeExpr.renderLiteral v), m.quoted = true ∨ m.char ≠ ' ' := by
  cases h with
  | null => decide
  | bool b => cases b <;> decide
  | int n =>
    have hne {c d : Char} (hc : c ∈ ofInt n) (hd : isNumberChar d = false) : c ≠ d := by
      rintro rfl
      simp [(IsNumberWord.ofInt n).chars c hc] at hd
    have hquote : ∀ c ∈ ofInt n, isQuote c = false := fun c hc => by
      simp [isQuote, hne hc (d := '\'') (by decide), hne hc (d := '"') (by decide), hne hc (d := '\x60') (by decide)]
    have hmarks : marks (ofInt n) = (ofInt n).map (⟨·, false⟩) := marks_noQuote hquote
    change ∀ m ∈ marks (ofInt n), _
    rw [hmarks]
    intro m hm
    obtain ⟨c, hc, rfl⟩ := List.mem_map.1 hm
    exact .inr (hne hc (by decide))
  | @text t ht =>
    have hmarks := marks_literal (q := '\'') (by decide) (literalBody_escapeLiteral ht) (r := [])
    change ∀ m ∈ marks ('\'' :: (escapeLiteral t ++ ['\''])), _
    rw [hmarks]
    intro m hm
    rw [show marks [] = [] from rfl, List.append_nil] at hm
    obtain ⟨c, -, rfl⟩ := List.mem_map.1 hm
    exact .inl rfl

private theorem splitUnion_renderLiterals {vs : List Value} (hne : vs ≠ []) (h : ∀ v ∈ vs, IsPlainValue v) :
    splitUnion (marks (TypeExpr.renderLiterals vs)) = vs.map TypeExpr.renderLiteral := by
  induction vs with
  | nil => exact absurd rfl hne
  | cons v vs ih =>
    rw [List.forall_mem_cons] at h
    have hone (rest : List Mark) : splitUnion (marks (TypeExpr.renderLiteral v) ++ rest) =
        onFirst (TypeExpr.renderLiteral v) (splitUnion rest) := by
      rw [splitUnion_append (marks_renderLiteral h.1), map_char_marks]
    cases vs with
    | nil => simpa [TypeExpr.renderLiterals, splitUnion, onFirst] using hone []
    | cons w vs =>
      have hnested := (IsTypeText.renderLiteral h.1.isEnumValue).nested
      have hshape : TypeExpr.renderLiterals (v :: w :: vs) =
          TypeExpr.renderLiteral v ++ ' ' :: '|' :: ' ' :: TypeExpr.renderLiterals (w :: vs) := by
        simp [TypeExpr.renderLiterals]
      rw [hshape, marks_append hnested, marks_cons (by decide), marks_cons (by decide), marks_cons (by decide), hone,
        splitUnion, ih (List.cons_ne_nil w vs) h.2]
      simp [onFirst]

theorem alternatives_renderLiterals {vs : List Value} (h : ∀ v ∈ vs, IsPlainValue v) :
    alternatives (TypeExpr.renderLiterals vs) = vs.map TypeExpr.renderLiteral := by
  cases vs with
  | nil => rfl
  | cons v vs =>
    rw [alternatives, splitUnion_renderLiterals (List.cons_ne_nil v vs) h, List.filter_eq_self]
    intro t ht
    obtain ⟨w, hw, rfl⟩ := List.mem_map.1 ht
    obtain ⟨c, u, hu, hc⟩ := (IsTypeText.renderLiteral (h w hw).isEnumValue).begins
    simp [hu, allBlank, hc]

end ClientGen.Source
