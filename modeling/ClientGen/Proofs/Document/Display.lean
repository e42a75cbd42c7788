import ClientGen.Document.Display
import ClientGen.Proofs.Naming
import Mathlib.Data.Nat.Notation
/-!
# The characters of displayed scalars

Numbers, dates and moments are shown with letters, digits and a few signs. Sequences of bytes are shown as
literals.
-/

namespace ClientGen

open Text Source

/-- Whether a character may stand in a displayed number. -/
def isNumberChar (c : Char) : Bool := isIdentChar c || c == '+' || c == '-' || c == '.'

/-- Whether a character may stand in a displayed number or date. -/
def isScalarChar (c : Char) : Bool := isIdentChar c || c == '+' || c == '-' || c == '.' || c == ':'

/-- A text that is not empty and has only characters of one kind. -/
structure IsWordOf (p : Char → Bool) (t : Text) : Prop where
  ne_nil : t ≠ []
  chars : ∀ c ∈ t, p c = true

/-- A text that is not empty and has only characters of displayed numbers. -/
abbrev IsNumberWord (t : Text) : Prop := IsWordOf isNumberChar t

/-- A text that is not empty and has only characters of displayed numbers and dates. -/
abbrev IsScalarWord (t : Text) : Prop := IsWordOf isScalarChar t

theorem isNumberChar_of_isIdentChar {c : Char} (h : isIdentChar c = true) : isNumberChar c = true := by
  simp [isNumberChar, h]

theorem isScalarChar_of_isNumberChar {c : Char} (h : isNumberChar c = true) : isScalarChar c = true := by
  unfold isNumberChar at h
  simp [isScalarChar, h]

namespace IsWordOf

variable {p : Char → Bool} {a b : Text}

theorem append (ha : IsWordOf p a) (hb : ∀ c ∈ b, p c = true) : IsWordOf p (a ++ b) where
  ne_nil := List.append_ne_nil_of_left_ne_nil ha.ne_nil b
  chars c hc := by
    rcases List.mem_append.1 hc with hc | hc
    · exact ha.chars c hc
    · exact hb c hc

theorem prepend (ha : ∀ c ∈ a, p c = true) (hb : IsWordOf p b) : IsWordOf p (a ++ b) where
  ne_nil := List.append_ne_nil_of_right_ne_nil a hb.ne_nil
  chars c hc := by
    rcases List.mem_append.1 hc with hc | hc
    · exact ha c hc
    · exact hb.chars c hc

end IsWordOf

namespace IsNumberWord

theorem isScalarWord {t : Text} (h : IsNumberWord t) : IsScalarWord t :=
  ⟨h.ne_nil, fun c hc => isScalarChar_of_isNumberChar (h.chars c hc)⟩

theorem of_isIdentifier {t : Text} (h : isIdentifier t = true) : IsNumberWord t := by
  refine ⟨?_, fun c hc => isNumberChar_of_isIdentChar (isIdentChar_of_mem h c hc)⟩
  rintro rfl
  cases h

theorem ofNat (n : Nat) : IsNumberWord (Text.ofNat n) where
  ne_nil := Nat.toDigits_ne_nil
  chars c hc := by
    have hd : c.isDigit = true := Nat.isDigit_of_mem_toDigits (by decide) (by decide) hc
    have hdigit : isDigit c = true := by
      simp only [Char.isDigit, Bool.and_eq_true, decide_eq_true_eq] at hd
      simp only [isDigit, Bool.and_eq_true, decide_eq_true_eq]
      exact ⟨hd.1, hd.2⟩
    exact isNumberChar_of_isIdentChar (by simp [isIdentChar, hdigit])

theorem padded (width n : Nat) : IsNumberWord (Text.padded 10 width n) := by
  refine .prepend (fun c hc => ?_) (ofNat n)
  rw [List.eq_of_mem_replicate hc]
  decide

theorem ofInt (n : Int) : IsNumberWord (Text.ofInt n) := by
  cases n with
  | ofNat n => exact ofNat n
  | negSucc n => exact .prepend (a := ['-']) (by decide) (ofNat (n + 1))

end IsNumberWord

namespace IsScalarWord

theorem ofNat (n : Nat) : IsScalarWord (Text.ofNat n) := (IsNumberWord.ofNat n).isScalarWord

theorem padded (width n : Nat) : IsScalarWord (Text.padded 10 width n) := (IsNumberWord.padded width n).isScalarWord

theorem ofInt (n : Int) : IsScalarWord (Text.ofInt n) := (IsNumberWord.ofInt n).isScalarWord

theorem date (d : Date) : IsScalarWord d.toText := by
  unfold Date.toText
  refine ((((padded 4 _).append ?_).append ?_).append ?_).append ?_
  · decide
  · exact (padded 2 _).chars
  · decide
  · exact (padded 2 _).chars

end IsScalarWord

/-! ## Floating-point numbers -/

private theorem isNumberChar_of_mem_decimal {m : Nat} {e : Int} {c : Char}
    (hc : c ∈ (Binary64.decimal m e).1) : isNumberChar c = true := by
  simp only [Binary64.decimal, dropEndWhile, List.mem_reverse] at hc
  have hmem := (List.dropWhile_suffix _).subset hc
  exact (IsNumberWord.ofNat _).chars c (List.mem_reverse.1 hmem)

private theorem isNumberWord_layout {digits : Text} (h : ∀ c ∈ digits, isNumberChar c = true)
    (point : Int) : IsNumberWord (Binary64.layout digits point) := by
  have hzeros (n : Nat) : ∀ c ∈ List.replicate n '0', isNumberChar c = true := by
    intro c hc
    rw [List.eq_of_mem_replicate hc]
    decide
  have htake (n : Nat) : ∀ c ∈ digits.take n, isNumberChar c = true := fun c hc =>
    h c (List.mem_of_mem_take hc)
  have hdrop (n : Nat) : ∀ c ∈ digits.drop n, isNumberChar c = true := fun c hc =>
    h c (List.mem_of_mem_drop hc)
  have hpoint : IsNumberWord ".".toList := ⟨by simp, by decide⟩
  have hzero : IsNumberWord "0.".toList := ⟨by simp, by decide⟩
  have hend : IsNumberWord ".0".toList := ⟨by simp, by decide⟩
  unfold Binary64.layout
  dsimp only
  split
  · split
    · exact (hzero.append (hzeros _)).append h
    · split
      · refine .prepend (fun c hc => ?_) hend
        rcases List.mem_append.1 hc with hc | hc
        · exact h c hc
        · exact hzeros _ c hc
      · exact ((IsWordOf.prepend (htake _) hpoint)).append (hdrop _)
  · refine .prepend (fun c hc => ?_) (IsNumberWord.padded 2 _)
    rcases List.mem_append.1 hc with hc | hc
    · rcases List.mem_append.1 hc with hc | hc
      · exact htake _ c hc
      · split at hc
        · cases hc
        · rcases List.mem_cons.1 hc with rfl | hc
          · decide
          · exact hdrop _ c hc
    · have hmarks : ∀ w ∈ ["e-".toList, "e+".toList], ∀ c ∈ w, isNumberChar c = true := by decide
      split at hc
      · exact hmarks _ (by simp) c hc
      · exact hmarks _ (by simp) c hc

theorem IsNumberWord.float (x : Binary64) : IsNumberWord x.toText := by
  cases x with
  | finite s m e =>
    have hsize : IsNumberWord (if m = 0 then "0.0".toList
        else Binary64.layout (Binary64.decimal m e).1
          ((Binary64.decimal m e).1.length + (Binary64.decimal m e).2)) := by
      split
      · exact ⟨by simp, by decide⟩
      · exact isNumberWord_layout (fun c hc => isNumberChar_of_mem_decimal hc) _
    simp only [Binary64.toText]
    split
    · exact .prepend (a := ['-']) (by decide) hsize
    · exact hsize
  | infinite s => cases s <;> exact ⟨by decide, by decide⟩
  | nan => exact ⟨by decide, by decide⟩

theorem IsScalarWord.float (x : Binary64) : IsScalarWord x.toText := (IsNumberWord.float x).isScalarWord

/-! ## Moments -/

theorem Moment.toText_shape (m : Moment) :
    ∃ clock, m.toText = m.date.toText ++ ' ' :: clock ∧ IsScalarWord clock := by
  let two := Text.padded 10 2
  let fraction : Text := if m.micro = 0 then [] else '.' :: Text.padded 10 6 m.micro
  have hcolon : ∀ c ∈ ":".toList, isScalarChar c = true := by decide
  have hfraction : ∀ c ∈ fraction, isScalarChar c = true := by
    intro c hc
    simp only [fraction] at hc
    split at hc
    · cases hc
    · rcases List.mem_cons.1 hc with rfl | hc
      · decide
      · exact (IsScalarWord.padded 6 _).chars c hc
  have hzone : ∃ zone, m.toText = m.date.toText ++ " " ++ two m.hour ++ ":" ++ two m.minute ++ ":" ++
      two m.second ++ fraction ++ zone ∧ ∀ c ∈ zone, isScalarChar c = true := by
    unfold Moment.toText
    cases m.ahead with
    | none => exact ⟨[], rfl, by simp⟩
    | some a =>
      refine ⟨_, rfl, fun c hc => ?_⟩
      rw [List.mem_append, List.mem_append, List.mem_cons] at hc
      rcases hc with ((rfl | hc) | hc) | hc
      · split <;> decide
      · exact (IsScalarWord.padded 2 _).chars c hc
      · exact hcolon c hc
      · exact (IsScalarWord.padded 2 _).chars c hc
  obtain ⟨zone, heq, hzone⟩ := hzone
  refine ⟨two m.hour ++ ":" ++ two m.minute ++ ":" ++ two m.second ++ fraction ++ zone, ?_, ?_⟩
  · rw [heq]
    simp only [List.append_assoc]
    rfl
  · exact ((((((IsScalarWord.padded 2 _).append hcolon).append
      (IsScalarWord.padded 2 _).chars).append hcolon).append
        (IsScalarWord.padded 2 _).chars).append hfraction).append hzone

/-! ## Sequences of bytes -/

private theorem isIdentChar_of_mem_hex {n : Nat} : ∀ c ∈ Nat.toDigits 16 n, isIdentChar c = true := by
  have hdigit : ∀ k < 16, isIdentChar (Nat.digitChar k) = true := by decide
  have key : ∀ fuel n ds, (∀ c ∈ ds, isIdentChar c = true) →
      ∀ c ∈ Nat.toDigitsCore 16 fuel n ds, isIdentChar c = true := by
    intro fuel
    induction fuel with
    | zero => exact fun _ _ h => h
    | succ fuel ih =>
      intro n ds h
      have hcons : ∀ c ∈ Nat.digitChar (n % 16) :: ds, isIdentChar c = true := by
        intro c hc
        rcases List.mem_cons.1 hc with rfl | hc
        · exact hdigit _ (Nat.mod_lt _ (by decide))
        · exact h c hc
      rw [Nat.toDigitsCore]
      split
      · exact hcons
      · exact ih _ _ hcons
  exact key _ _ [] (by simp)

theorem isIdentChar_of_mem_padded_hex {width n : Nat} {c : Char} (hc : c ∈ padded 16 width n) :
    isIdentChar c = true := by
  rcases List.mem_append.1 hc with hc | hc
  · rw [List.eq_of_mem_replicate hc]
    decide
  · exact isIdentChar_of_mem_hex c hc

private theorem literalBody_hex {q : Char} (hq : isQuote q = true) (width n : Nat) :
    LiteralBody q (padded 16 width n) := by
  refine .of_forall fun c hc => ?_
  have hi := isIdentChar_of_mem_padded_hex hc
  refine ⟨ne_of_isIdentChar hi (by decide), ?_, fun hl => absurd hl (ne_of_isIdentChar hi (by decide))⟩
  rintro rfl
  have hp := isPlain_of_isIdentChar hi
  simp [isPlain, hq] at hp

theorem literalBody_escapeChar {q : Char} (hq : isQuote q = true) (c : Char) :
    LiteralBody q (escapeChar q c) := by
  unfold escapeChar
  split
  · exact .escape .nil
  · next hc =>
    simp only [Bool.or_eq_true, decide_eq_true_eq, not_or] at hc
    split
    · exact .escape .nil
    · next hn =>
      split
      · exact .escape .nil
      · split
        · exact .escape .nil
        · split
          · exact .plain hc.2 hc.1 (fun h => absurd h hn) .nil
          · split
            · exact .append (a := "\\x") (.escape .nil) (literalBody_hex hq 2 _)
            · split
              · exact .append (a := "\\u") (.escape .nil) (literalBody_hex hq 4 _)
              · exact .append (a := "\\U") (.escape .nil) (literalBody_hex hq 8 _)

theorem Scalar.bytesInside_shape (bs : List UInt8) :
    ∃ q body, bytesInside bs = 'b' :: (q :: body ++ [q]) ∧ isQuote q = true ∧ LiteralBody q body := by
  let q := if bs.contains 39 && !bs.contains 34 then '"' else '\''
  have hq : isQuote q = true := by
    simp only [q]
    split <;> decide
  refine ⟨q, bs.flatMap (byteInside q), rfl, hq, .flatMap (fun b => ?_) bs⟩
  unfold byteInside
  split
  · exact literalBody_escapeChar hq _
  · exact .append (a := "\\x") (.escape .nil) (literalBody_hex hq 2 _)

end ClientGen
