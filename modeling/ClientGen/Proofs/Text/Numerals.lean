import ClientGen.Text.Word
import Mathlib.Algebra.Group.Nat.Defs
/-!
# Decimal numerals

The digits of a number, the number that digits denote, and the zeros that they end in.
-/

namespace ClientGen.Text

/-! ## Digits -/

theorem isDigit_of_mem_toDigits {n : Nat} {c : Char} (h : c ∈ Nat.toDigits 10 n) : isDigit c = true := by
  have hdigit := Nat.isDigit_of_mem_toDigits (by decide) (by decide) h
  simp only [Char.isDigit, Bool.and_eq_true, decide_eq_true_eq] at hdigit
  simp only [isDigit, Bool.and_eq_true, decide_eq_true_eq]
  exact hdigit

theorem digit_lt_ten {c : Char} (h : isDigit c = true) : c.toNat - '0'.toNat < 10 := by
  simp only [isDigit, Bool.and_eq_true, decide_eq_true_eq] at h
  have hnine : c.toNat ≤ '9'.toNat := h.2
  have : '9'.toNat = '0'.toNat + 9 := rfl
  omega

theorem toDigits_bounds {n : Nat} (h : n ≠ 0) :
    10 ^ ((Nat.toDigits 10 n).length - 1) ≤ n ∧ n < 10 ^ (Nat.toDigits 10 n).length := by
  have hpos : 0 < (Nat.toDigits 10 n).length := Nat.length_toDigits_pos
  refine ⟨?_, (Nat.length_toDigits_le_iff (by decide) hpos).1 (Nat.le_refl _)⟩
  rcases Nat.lt_or_ge 1 (Nat.toDigits 10 n).length with hlong | hshort
  · refine Nat.not_lt.1 fun hlt => ?_
    have := (Nat.length_toDigits_le_iff (by decide) (by omega)).2 hlt
    omega
  · rw [show (Nat.toDigits 10 n).length = 1 by omega]
    exact Nat.one_le_iff_ne_zero.2 h

theorem ofDigitChars_lt {t : Text} (h : ∀ c ∈ t, isDigit c = true) : Nat.ofDigitChars 10 t 0 < 10 ^ t.length := by
  induction t with
  | nil => decide
  | cons c t ih =>
    have hc := digit_lt_ten (h c List.mem_cons_self)
    have ih := ih fun d hd => h d (List.mem_cons_of_mem _ hd)
    rw [Nat.ofDigitChars_cons, Nat.mul_zero, Nat.zero_add, Nat.ofDigitChars_eq_ofDigitChars_zero, List.length_cons,
      Nat.pow_succ]
    have hle : 10 ^ t.length * (c.toNat - '0'.toNat) ≤ 10 ^ t.length * 9 := Nat.mul_le_mul_left _ (by omega)
    omega

/-! ## Numerals -/

/-- Digits that do not begin with a zero. -/
structure IsNumeral (t : Text) : Prop where
  isDigit : ∀ c ∈ t, isDigit c = true
  first : ∃ c r, t = c :: r ∧ c ≠ '0'

theorem isNumeral_ofNat {n : Nat} (h : n ≠ 0) : IsNumeral (ofNat n) where
  isDigit _ := isDigit_of_mem_toDigits
  first := by
    obtain ⟨c, r, hcons⟩ := List.exists_cons_of_ne_nil (Nat.toDigits_ne_nil (n := n) (b := 10))
    refine ⟨c, r, hcons, ?_⟩
    -- With a zero in front the number would be smaller than its length says.
    rintro rfl
    have hvalue : Nat.ofDigitChars 10 ('0' :: r) 0 = n := hcons ▸ Nat.ofDigitChars_ten_toDigits
    have hlow := (toDigits_bounds h).1
    have hhigh : Nat.ofDigitChars 10 r 0 < 10 ^ r.length := by
      refine ofDigitChars_lt fun c hc => isDigit_of_mem_toDigits (n := n) ?_
      rw [hcons]
      exact List.mem_cons_of_mem _ hc
    rw [hcons, List.length_cons, Nat.add_sub_cancel] at hlow
    rw [Nat.ofDigitChars_cons] at hvalue
    rw [Nat.sub_self, Nat.add_zero, Nat.mul_zero] at hvalue
    omega

theorem IsNumeral.append {t u : Text} (h : IsNumeral t) (hu : ∀ c ∈ u, Text.isDigit c = true) : IsNumeral (t ++ u) where
  isDigit c hc := (List.mem_append.1 hc).elim (h.isDigit c) (hu c)
  first := by
    obtain ⟨c, r, rfl, hc⟩ := h.first
    exact ⟨c, r ++ u, rfl, hc⟩

theorem IsNumeral.take {t : Text} (h : IsNumeral t) {n : Nat} (hn : n ≠ 0) : IsNumeral (t.take n) where
  isDigit c hc := h.isDigit c (List.mem_of_mem_take hc)
  first := by
    obtain ⟨c, r, rfl, hc⟩ := h.first
    obtain ⟨n, rfl⟩ := Nat.exists_eq_succ_of_ne_zero hn
    exact ⟨c, r.take n, rfl, hc⟩

theorem dropEndWhile_append_replicate (a : Char) (t : Text) :
    dropEndWhile (· == a) t ++ List.replicate (t.length - (dropEndWhile (· == a) t).length) a = t := by
  have hends : ∀ c ∈ t.reverse.takeWhile (· == a), c = a := fun c hc => by
    simpa using List.all_eq_true.1 List.all_takeWhile c hc
  have hsplit : dropEndWhile (· == a) t ++ (t.reverse.takeWhile (· == a)).reverse = t := by
    rw [dropEndWhile, ← List.reverse_append, List.takeWhile_append_dropWhile, List.reverse_reverse]
  have hlength := congrArg List.length hsplit
  rw [List.length_append, List.length_reverse] at hlength
  rw [List.eq_replicate_of_mem hends, List.reverse_replicate] at hsplit
  rwa [show t.length - (dropEndWhile (· == a) t).length = (t.reverse.takeWhile (· == a)).length by omega]

/-- Without the zeros at its end a numeral is a numeral; they stand for powers of ten. -/
theorem IsNumeral.dropZeros {t : Text} (h : IsNumeral t) :
    IsNumeral (dropEndWhile (· == '0') t) ∧
      Nat.ofDigitChars 10 t 0 = 10 ^ (t.length - (dropEndWhile (· == '0') t).length) *
        Nat.ofDigitChars 10 (dropEndWhile (· == '0') t) 0 := by
  have hsplit := dropEndWhile_append_replicate '0' t
  generalize dropEndWhile (· == '0') t = kept at *
  generalize t.length - kept.length = zeros at *
  subst hsplit
  refine ⟨⟨fun c hc => h.isDigit c (List.mem_append_left _ hc), ?_⟩, ?_⟩
  · obtain ⟨c, r, hcons, hc⟩ := h.first
    cases kept with
    | nil =>
      rw [List.nil_append] at hcons
      exact absurd (List.eq_of_mem_replicate (hcons ▸ List.mem_cons_self)) hc
    | cons d kept => exact ⟨d, kept, rfl, (List.cons_eq_cons.1 hcons).1 ▸ hc⟩
  · rw [Nat.ofDigitChars_append, Nat.ofDigitChars_replicate_zero]

end ClientGen.Text
