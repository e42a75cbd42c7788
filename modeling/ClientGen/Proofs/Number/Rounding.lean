import ClientGen.Number.Shortest
import ClientGen.Proofs.Text.Numerals
import Mathlib.Algebra.Order.Field.Power
import Mathlib.Data.Rat.Cast.Order
import Mathlib.Tactic.FieldSimp
import Mathlib.Tactic.Linarith
import Mathlib.Tactic.NormNum
import Mathlib.Tactic.Positivity
import Mathlib.Tactic.Ring
import Mathlib.Tactic.WLOG
/-!
# Rounding to binary numbers

Every rational number in the interval around a number of 64 bits is rounded to that number. The interval is measured
in units of the last place: half a unit on either side, a quarter below a power of two, and its ends count for an even
mantissa.
-/

namespace ClientGen.Binary64

/-! ## Powers -/

theorem zpow_eq_div {b : ℚ} (hb : b ≠ 0) (e : Int) : b ^ e = b ^ e.toNat / b ^ (-e).toNat := by
  rw [← zpow_natCast, ← zpow_natCast, ← zpow_sub₀ hb, Int.toNat_sub_toNat_neg]

theorem inUnits_pos (num : Nat) {den : Nat} (hden : 0 < den) (e : Int) : 0 < (inUnits num den e).2 := by
  simp only [inUnits, Nat.pow_eq]
  positivity

theorem inUnits_div (num den : Nat) (e : Int) :
    ((inUnits num den e).1 : ℚ) / (inUnits num den e).2 = num / den / 2 ^ e := by
  simp only [inUnits, Nat.pow_eq, Nat.cast_mul, Nat.cast_pow, Nat.cast_ofNat]
  rw [zpow_eq_div two_ne_zero]
  field_simp

/-! ## Rounding to integers -/

/-- The integer is nearest to the number, and even if it is half a unit away. -/
def IsNearest (n : Nat) (x : ℚ) : Prop := |x - n| ≤ 1 / 2 ∧ (|x - n| = 1 / 2 → n % 2 = 0)

theorem isNearest_roundedQuotient (num : Nat) {den : Nat} (hden : 0 < den) :
    IsNearest (roundedQuotient num den) (num / den) := by
  have hd : (0 : ℚ) < den := by exact_mod_cast hden
  have hsplit : (num : ℚ) / den = (num / den : Nat) + (num % den : Nat) / den := by
    field_simp
    exact_mod_cast (Nat.div_add_mod num den).symm
  have hlow : (0 : ℚ) ≤ (num % den : Nat) / den := by positivity
  have hhigh : ((num % den : Nat) : ℚ) / den < 1 :=
    (div_lt_one hd).2 (by exact_mod_cast Nat.mod_lt num hden)
  have hhalf (r : Nat) : ((r : ℚ) / den < 1 / 2 ↔ 2 * r < den) ∧ ((r : ℚ) / den = 1 / 2 ↔ 2 * r = den) := by
    constructor
    · rw [div_lt_iff₀ hd, ← @Nat.cast_lt ℚ]
      push_cast
      constructor <;> intro h <;> linarith
    · rw [div_eq_iff hd.ne', ← @Nat.cast_inj ℚ]
      push_cast
      constructor <;> intro h <;> linarith
  obtain ⟨hless, htie⟩ := hhalf (num % den)
  unfold IsNearest roundedQuotient
  rw [hsplit]
  generalize ((num % den : Nat) : ℚ) / den = f at *
  simp only [Bool.or_eq_true, Bool.and_eq_true, decide_eq_true_eq]
  split
  · next hup =>
    -- The remainder is at least half the divisor, so the next integer is at most half a unit above.
    have hge : 1 / 2 ≤ f := not_lt.1 fun h => by
      have := hless.1 h
      omega
    have hdist : |(num / den : Nat) + f - (num / den + 1 : Nat)| = 1 - f := by
      push_cast
      rw [abs_of_nonpos (by linarith)]
      ring
    rw [hdist]
    refine ⟨by linarith, fun heq => ?_⟩
    have := htie.1 (by linarith)
    omega
  · next hdown =>
    have hle : f ≤ 1 / 2 := not_lt.1 fun h => by
      have hge := mt hless.2 (not_lt.2 h.le)
      have hne := mt htie.2 h.ne'
      omega
    have hdist : |(num / den : Nat) + f - (num / den : Nat)| = f := by
      rw [add_sub_cancel_left, abs_of_nonneg hlow]
    rw [hdist]
    refine ⟨hle, fun heq => ?_⟩
    have := htie.1 heq
    omega

theorem isNearest_iff {n : Nat} {x : ℚ} :
    IsNearest n x ↔
      if n % 2 = 0 then n - 1 / 2 ≤ x ∧ x ≤ n + 1 / 2 else n - 1 / 2 < x ∧ x < n + 1 / 2 := by
  unfold IsNearest
  split
  · next heven =>
    rw [abs_le]
    constructor
    · rintro ⟨⟨hl, hr⟩, -⟩
      constructor <;> linarith
    · rintro ⟨hl, hr⟩
      exact ⟨⟨by linarith, by linarith⟩, fun _ => heven⟩
  · next hodd =>
    have hlt : |x - n| ≤ 1 / 2 ∧ (|x - n| = 1 / 2 → n % 2 = 0) ↔ |x - n| < 1 / 2 := by
      rw [lt_iff_le_and_ne]
      simp only [hodd, imp_false, ne_eq]
    rw [hlt, abs_lt]
    constructor <;> rintro ⟨hl, hr⟩ <;> constructor <;> linarith

theorem IsNearest.unique {m n : Nat} {x : ℚ} (hm : IsNearest m x) (hn : IsNearest n x) : m = n := by
  wlog hle : m ≤ n generalizing m n
  · exact (this hn hm (Nat.le_of_not_le hle)).symm
  by_contra hne
  obtain ⟨hmhalf, hmeven⟩ := hm
  obtain ⟨hnhalf, hneven⟩ := hn
  have hm' := abs_le.1 hmhalf
  have hn' := abs_le.1 hnhalf
  -- Two integers within half a unit are neighbours, and both are half a unit away: both were even.
  have hnext : n = m + 1 := by
    have : (n : ℚ) ≤ (m + 1 : Nat) := by
      push_cast
      linarith
    have : n ≤ m + 1 := by exact_mod_cast this
    omega
  subst hnext
  push_cast at hn'
  have hx : x = m + 1 / 2 := by linarith
  have hme := hmeven (by rw [hx]; norm_num)
  have hne := hneven (by rw [hx]; push_cast; norm_num)
  omega

theorem roundedQuotient_eq {num den n : Nat} (hden : 0 < den) (h : IsNearest n (num / den)) :
    roundedQuotient num den = n :=
  (isNearest_roundedQuotient num hden).unique h

/-! ## Mantissas and exponents -/

/-- The mantissa and the exponent of a positive number. -/
structure IsPositive (m : Nat) (e : Int) : Prop where
  pos : 0 < m
  lt : m < 2 ^ mantissaBits
  ge : minExponent ≤ e
  le : e ≤ maxExponent
  /-- The mantissa is long, but for subnormal numbers. -/
  long : minExponent < e → 2 ^ (mantissaBits - 1) ≤ m

/-- The numbers that are results of operations. -/
def IsProper : Binary64 → Prop
  | .finite _ m e => m = 0 ∧ e = minExponent ∨ IsPositive m e
  | .infinite _ => True
  | .nan => True

/-- The exponent of the unit in which a quotient is rounded. -/
def roundingExponent (num den : Nat) : Int :=
  let low := max ((num.log2 : Int) - den.log2 - mantissaBits) minExponent
  if (inUnits num den low).1 / (inUnits num den low).2 < 2 ^ mantissaBits then low else low + 1

/-- The number of a rounded mantissa, which may have become longer by one bit. -/
def ofRounded (negative : Bool) (m : Nat) (e : Int) : Binary64 :=
  let (m, e) := if m = 2 ^ mantissaBits then (2 ^ (mantissaBits - 1), e + 1) else (m, e)
  if maxExponent < e then .infinite negative else .finite negative m e

theorem ofQuotient_eq (negative : Bool) {num den : Nat} (h : num ≠ 0) :
    ofQuotient negative num den =
      ofRounded negative (roundedQuotient (inUnits num den (roundingExponent num den)).1
        (inUnits num den (roundingExponent num den)).2) (roundingExponent num den) := by
  rw [ofQuotient, if_neg h]
  simp only [roundingExponent, ofRounded, Nat.pow_eq, decide_eq_true_eq]
  rfl

section Exponent

variable {num den : Nat} (hnum : num ≠ 0) (hden : 0 < den)
include hnum hden

private theorem log2_bounds :
    2 ^ ((num.log2 : Int) - den.log2 - 1) < (num / den : ℚ) ∧
      (num / den : ℚ) < 2 ^ ((num.log2 : Int) - den.log2 + 1) := by
  have hd : (0 : ℚ) < den := by exact_mod_cast hden
  have hpow (n : Nat) : (2 : ℚ) ^ ((n : Nat) : Int) = ((2 ^ n : Nat) : ℚ) := by simp
  have hnumLow : ((2 ^ num.log2 : Nat) : ℚ) ≤ num := by exact_mod_cast Nat.log2_self_le hnum
  have hnumHigh : (num : ℚ) < (2 ^ (num.log2 + 1) : Nat) := by exact_mod_cast Nat.lt_log2_self
  have hdenLow : ((2 ^ den.log2 : Nat) : ℚ) ≤ den := by exact_mod_cast Nat.log2_self_le hden.ne'
  have hdenHigh : (den : ℚ) < (2 ^ (den.log2 + 1) : Nat) := by exact_mod_cast Nat.lt_log2_self
  constructor
  · have heq : (num.log2 : Int) - den.log2 - 1 = (num.log2 : Nat) - ((den.log2 + 1 : Nat) : Int) := by
      push_cast
      ring
    rw [heq, zpow_sub₀ two_ne_zero, hpow, hpow]
    exact div_lt_div₀' hnumLow hdenHigh (by positivity) hd
  · have heq : (num.log2 : Int) - den.log2 + 1 = ((num.log2 + 1 : Nat) : Int) - (den.log2 : Nat) := by
      push_cast
      ring
    rw [heq, zpow_sub₀ two_ne_zero, hpow, hpow]
    exact div_lt_div₀ hnumHigh hdenLow (by positivity) (by positivity)

omit hnum in
private theorem fits_iff (e : Int) :
    (inUnits num den e).1 / (inUnits num den e).2 < 2 ^ mantissaBits ↔
      (num / den : ℚ) < 2 ^ mantissaBits * 2 ^ e := by
  have hpos := inUnits_pos num hden e
  have hpos' : (0 : ℚ) < (inUnits num den e).2 := by exact_mod_cast hpos
  rw [Nat.div_lt_iff_lt_mul hpos, ← div_lt_iff₀ (by positivity), ← inUnits_div, div_lt_iff₀ hpos']
  exact_mod_cast Iff.rfl

/-- The mantissa is shorter than the limit, and as long as it may be where the exponent is not the least. -/
theorem roundingExponent_spec :
    minExponent ≤ roundingExponent num den ∧
      (num / den : ℚ) < 2 ^ mantissaBits * 2 ^ roundingExponent num den ∧
      (minExponent < roundingExponent num den →
        2 ^ (mantissaBits - 1) * 2 ^ roundingExponent num den ≤ (num / den : ℚ)) := by
  obtain ⟨habove, hbelow⟩ := log2_bounds hnum hden
  unfold roundingExponent
  generalize hlow : max ((num.log2 : Int) - den.log2 - mantissaBits) minExponent = low
  have hmin : minExponent ≤ low := hlow ▸ le_max_right _ _
  have hfirst : (num.log2 : Int) - den.log2 - mantissaBits ≤ low := hlow ▸ le_max_left _ _
  have hnext : (2 : ℚ) ^ (low + 1) = 2 ^ low * 2 := zpow_add_one₀ two_ne_zero low
  dsimp only
  split
  · next hfits =>
    refine ⟨hmin, (fits_iff hden low).1 hfits, fun hlt => ?_⟩
    have heq : (num.log2 : Int) - den.log2 - 1 = (mantissaBits - 1 : Nat) + low := by
      simp only [mantissaBits] at hlow hfirst ⊢
      omega
    rw [heq, zpow_add₀ two_ne_zero, zpow_natCast] at habove
    exact habove.le
  · next hfits =>
    have hge := not_lt.1 (mt (fits_iff hden low).2 hfits)
    refine ⟨by omega, ?_, fun _ => ?_⟩
    · calc (num / den : ℚ) < 2 ^ ((num.log2 : Int) - den.log2 + 1) := hbelow
        _ ≤ 2 ^ ((mantissaBits : Nat) + (low + 1)) := by
          refine zpow_le_zpow_right₀ (by norm_num) ?_
          omega
        _ = 2 ^ mantissaBits * 2 ^ (low + 1) := by rw [zpow_add₀ two_ne_zero, zpow_natCast]
    · calc (2 : ℚ) ^ (mantissaBits - 1) * 2 ^ (low + 1) = 2 ^ mantissaBits * 2 ^ low := by
            rw [hnext, mantissaBits]
            ring
        _ ≤ num / den := hge

end Exponent

/-! ## Neighbourhoods -/

/-- Whether a rational number lies in the interval. -/
def Neighbourhood.Contains (b : Neighbourhood) (x : ℚ) : Prop :=
  if b.closed then b.low * 2 ^ b.unit ≤ x ∧ x ≤ b.high * 2 ^ b.unit
  else b.low * 2 ^ b.unit < x ∧ x < b.high * 2 ^ b.unit

/-- What is nearest to a mantissa lies around its number; below a power of two the unit is half as long. -/
theorem contains_neighbourhood_iff {m : Nat} (hm : 0 < m) (e : Int) (x : ℚ) :
    (neighbourhood m e).Contains x ↔
      IsNearest m (x / 2 ^ e) ∧ (m = 2 ^ (mantissaBits - 1) → e ≠ minExponent → m - 1 / 4 ≤ x / 2 ^ e) := by
  have hunit : (2 : ℚ) ^ (e - 2) = 2 ^ e / 4 := by
    rw [zpow_sub₀ two_ne_zero]
    norm_num
  have hpos : (0 : ℚ) < 2 ^ e := by positivity
  obtain ⟨y, rfl⟩ : ∃ y, x = y * 2 ^ e := ⟨x / 2 ^ e, by field_simp⟩
  rw [mul_div_cancel_right₀ _ hpos.ne']
  have hbound (n : Nat) : ((n : ℚ) * (2 ^ e / 4) ≤ y * 2 ^ e ↔ (n : ℚ) / 4 ≤ y) ∧
      ((n : ℚ) * (2 ^ e / 4) < y * 2 ^ e ↔ (n : ℚ) / 4 < y) ∧
      (y * 2 ^ e ≤ (n : ℚ) * (2 ^ e / 4) ↔ y ≤ (n : ℚ) / 4) ∧
      (y * 2 ^ e < (n : ℚ) * (2 ^ e / 4) ↔ y < (n : ℚ) / 4) := by
    have heq : (n : ℚ) * (2 ^ e / 4) = n / 4 * 2 ^ e := by ring
    rw [heq]
    simp only [mul_le_mul_iff_left₀ hpos, mul_lt_mul_iff_left₀ hpos, and_self]
  have hquarter : ((4 * m - 1 : Nat) : ℚ) / 4 = m - 1 / 4 := by
    rw [Nat.cast_sub (by omega)]
    push_cast
    ring
  have hlow : ((4 * m - 2 : Nat) : ℚ) / 4 = m - 1 / 2 := by
    rw [Nat.cast_sub (by omega)]
    push_cast
    ring
  have hhigh : ((4 * m + 2 : Nat) : ℚ) / 4 = m + 1 / 2 := by
    push_cast
    ring
  simp only [Neighbourhood.Contains, neighbourhood, hunit, (hbound _).1, (hbound _).2.1, (hbound _).2.2.1,
    (hbound _).2.2.2, isNearest_iff, Nat.pow_eq, hhigh, Bool.and_eq_true, decide_eq_true_eq]
  by_cases hshort : m = 2 ^ (mantissaBits - 1) ∧ e ≠ minExponent
  · -- a power of two is even, so that the ends belong to the interval
    have heven : m % 2 = 0 := by
      rw [hshort.1]
      decide
    simp only [if_pos hshort, if_pos heven, hquarter]
    constructor
    · rintro ⟨hl, hr⟩
      exact ⟨⟨by linarith, hr⟩, fun _ _ => hl⟩
    · rintro ⟨⟨-, hr⟩, hl⟩
      exact ⟨hl hshort.1 hshort.2, hr⟩
  · have htrivial : m = 2 ^ (mantissaBits - 1) → e ≠ minExponent → (m : ℚ) - 1 / 4 ≤ y :=
      fun hm he => absurd ⟨hm, he⟩ hshort
    simp only [if_neg hshort, hlow]
    exact (and_iff_left htrivial).symm

private theorem two_pow_mul_le {e f : Int} (n k : Nat) (h : e + n ≤ f) : (2 : ℚ) ^ (k + n) * 2 ^ e ≤ 2 ^ k * 2 ^ f := by
  rw [pow_add, mul_assoc, ← zpow_natCast 2 n, ← zpow_add₀ two_ne_zero, add_comm (n : Int)]
  exact mul_le_mul_of_nonneg_left (zpow_le_zpow_right₀ (by norm_num) h) (by positivity)

/-- A number in the interval around another is measured in the unit of that number, or in half of it and then rounded
up to the power of two. -/
private theorem exponent_cases {m : Nat} {e f : Int} {x : ℚ} (h : IsPositive m e)
    (hx : (neighbourhood m e).Contains x) (hmin : minExponent ≤ f) (hlt : x < 2 ^ mantissaBits * 2 ^ f)
    (hlong : minExponent < f → 2 ^ (mantissaBits - 1) * 2 ^ f ≤ x) :
    f = e ∧ IsNearest m (x / 2 ^ f) ∨
      f + 1 = e ∧ m = 2 ^ (mantissaBits - 1) ∧ IsNearest (2 ^ mantissaBits) (x / 2 ^ f) := by
  obtain ⟨hnear, hshort⟩ := (contains_neighbourhood_iff h.pos e x).1 hx
  obtain ⟨hleft, hright⟩ := abs_le.1 hnear.1
  have hunit : (0 : ℚ) < 2 ^ e := by positivity
  rcases lt_trichotomy f e with hlow | rfl | hhigh
  · -- the number lies just below a power of two, where the unit is half as long
    right
    have htop : x / 2 ^ e < 2 ^ (mantissaBits - 1) :=
      (div_lt_iff₀ hunit).2 (hlt.trans_le (two_pow_mul_le 1 (mantissaBits - 1) hlow))
    have hm : m = 2 ^ (mantissaBits - 1) := by
      have hlt : (m : ℚ) < (2 ^ (mantissaBits - 1) + 1 : Nat) := by
        push_cast
        linarith
      have hlt : m < 2 ^ (mantissaBits - 1) + 1 := by exact_mod_cast hlt
      have hge := h.long (hmin.trans_lt hlow)
      omega
    have hquarter := hshort hm (hmin.trans_lt hlow).ne'
    rw [hm] at hquarter
    push_cast at hquarter
    have hnext : f + 1 = e := by
      by_contra hne
      have htop : x / 2 ^ e < 2 ^ (mantissaBits - 2) :=
        (div_lt_iff₀ hunit).2 (hlt.trans_le (two_pow_mul_le 2 (mantissaBits - 2) (by omega)))
      norm_num [mantissaBits] at htop hquarter
      linarith
    have hdouble : x / 2 ^ f = x / 2 ^ e * 2 := by
      rw [← hnext, zpow_add_one₀ two_ne_zero]
      field_simp
    refine ⟨hnext, hm, isNearest_iff.2 ?_⟩
    rw [hdouble, if_pos (by decide)]
    norm_num [mantissaBits] at htop hquarter ⊢
    constructor <;> linarith
  · exact .inl ⟨rfl, hnear⟩
  · -- with a longer unit the number would lie beyond all mantissas of this one
    exfalso
    have hm : (m : ℚ) + 1 ≤ 2 ^ mantissaBits := by exact_mod_cast h.lt
    have hbottom : (2 : ℚ) ^ mantissaBits ≤ x / 2 ^ e :=
      (le_div_iff₀ hunit).2 ((two_pow_mul_le 1 (mantissaBits - 1) hhigh).trans (hlong (h.ge.trans_lt hhigh)))
    linarith

theorem ofQuotient_of_contains {m : Nat} {e : Int} (h : IsPositive m e) {num den : Nat} (hden : 0 < den)
    (hx : (neighbourhood m e).Contains (num / den)) (negative : Bool) :
    ofQuotient negative num den = .finite negative m e := by
  have hnum : num ≠ 0 := by
    rintro rfl
    have hm : (1 : ℚ) ≤ m := by exact_mod_cast h.pos
    have hle := abs_le.1 ((contains_neighbourhood_iff h.pos e _).1 hx).1.1
    simp only [Nat.cast_zero, zero_div, zero_sub] at hle
    linarith
  obtain ⟨hmin, hlt, hlong⟩ := roundingExponent_spec hnum hden
  have hround {n : Nat} (hn : IsNearest n (num / den / 2 ^ roundingExponent num den)) :
      roundedQuotient (inUnits num den (roundingExponent num den)).1
        (inUnits num den (roundingExponent num den)).2 = n :=
    roundedQuotient_eq (inUnits_pos num hden _) (by rwa [inUnits_div])
  rw [ofQuotient_eq negative hnum]
  rcases exponent_cases h hx hmin hlt hlong with ⟨he, hn⟩ | ⟨he, hm, hn⟩
  · rw [hround hn, he, ofRounded, if_neg h.lt.ne]
    exact if_neg (not_lt.2 h.le)
  · rw [hround hn, ofRounded, if_pos rfl, he, ← hm]
    exact if_neg (not_lt.2 h.le)

private theorem isProper_ofRounded {m : Nat} {e : Int} (hmin : minExponent ≤ e) (hm : m ≤ 2 ^ mantissaBits)
    (hlong : minExponent < e → 2 ^ (mantissaBits - 1) ≤ m) (negative : Bool) :
    (ofRounded negative m e).IsProper := by
  unfold ofRounded
  by_cases hcarry : m = 2 ^ mantissaBits
  · rw [if_pos hcarry]
    dsimp only
    split
    · trivial
    · next hmax => exact .inr ⟨by decide, by decide, by omega, not_lt.1 hmax, fun _ => le_refl _⟩
  · rw [if_neg hcarry]
    dsimp only
    split
    · trivial
    · next hmax =>
      rcases Nat.eq_zero_or_pos m with rfl | hpos
      · refine .inl ⟨rfl, hmin.antisymm' (not_lt.1 fun hlt => ?_)⟩
        exact absurd (hlong hlt) (by decide)
      · exact .inr ⟨hpos, lt_of_le_of_ne hm hcarry, hmin, not_lt.1 hmax, hlong⟩

theorem isProper_ofQuotient (negative : Bool) (num : Nat) {den : Nat} (hden : 0 < den) :
    (ofQuotient negative num den).IsProper := by
  by_cases hnum : num = 0
  · rw [ofQuotient, if_pos hnum]
    exact .inl ⟨rfl, rfl⟩
  obtain ⟨hmin, hlt, hlong⟩ := roundingExponent_spec hnum hden
  have hnear := isNearest_roundedQuotient (inUnits num den (roundingExponent num den)).1
    (inUnits_pos num hden (roundingExponent num den))
  rw [inUnits_div] at hnear
  rw [ofQuotient_eq negative hnum]
  generalize roundedQuotient _ _ = m at *
  generalize roundingExponent num den = f at *
  obtain ⟨hleft, hright⟩ := abs_le.1 hnear.1
  have hunit : (0 : ℚ) < 2 ^ f := by positivity
  refine isProper_ofRounded hmin ?_ (fun hf => ?_) negative
  · have hlt := (div_lt_iff₀ hunit).2 hlt
    have hm : (m : ℚ) < (2 ^ mantissaBits + 1 : Nat) := by
      push_cast
      linarith
    have hm : m < 2 ^ mantissaBits + 1 := by exact_mod_cast hm
    omega
  · have hle := (le_div_iff₀ hunit).2 (hlong hf)
    have hm : ((2 ^ (mantissaBits - 1) : Nat) : ℚ) < (m + 1 : Nat) := by
      push_cast
      linarith
    have hm : 2 ^ (mantissaBits - 1) < m + 1 := by exact_mod_cast hm
    omega

/-! ## Decimal numbers -/

theorem decimal_eq_div (d : Nat) (k : Int) :
    (d : ℚ) * 10 ^ k = (d * Nat.pow 10 k.toNat : Nat) / (Nat.pow 10 (-k).toNat : Nat) := by
  simp only [Nat.pow_eq, Nat.cast_mul, Nat.cast_pow, Nat.cast_ofNat]
  rw [zpow_eq_div (by norm_num)]
  ring

private theorem decimal_bounds {d : Nat} (hd : d ≠ 0) (k : Int) :
    (10 : ℚ) ^ ((Nat.toDigits 10 d).length + k - 1) ≤ d * 10 ^ k ∧
      (d : ℚ) * 10 ^ k < 10 ^ ((Nat.toDigits 10 d).length + k) := by
  obtain ⟨hlow, hhigh⟩ := Text.toDigits_bounds hd
  have hlength : 0 < (Nat.toDigits 10 d).length := Nat.length_toDigits_pos
  generalize (Nat.toDigits 10 d).length = l at *
  have hpos : (0 : ℚ) < 10 ^ k := by positivity
  have hlow : ((10 : ℚ) ^ (l - 1)) ≤ d := by exact_mod_cast hlow
  have hhigh : (d : ℚ) < 10 ^ l := by exact_mod_cast hhigh
  constructor
  · rw [show (l : Int) + k - 1 = (l - 1 : Nat) + k by omega, zpow_add₀ (by norm_num), zpow_natCast]
    exact mul_le_mul_of_nonneg_right hlow hpos.le
  · rw [zpow_add₀ (by norm_num), zpow_natCast]
    exact mul_lt_mul_of_pos_right hhigh hpos

theorem bounds_of_contains {m : Nat} {e : Int} (h : IsPositive m e) {x : ℚ}
    (hx : (neighbourhood m e).Contains x) : (2 : ℚ) ^ (-1075 : Int) ≤ x ∧ x ≤ 2 ^ (1024 : Int) := by
  obtain ⟨hleft, hright⟩ := abs_le.1 ((contains_neighbourhood_iff h.pos e x).1 hx).1.1
  have hunit : (0 : ℚ) < 2 ^ e := by positivity
  have hm : (1 : ℚ) ≤ m := by exact_mod_cast h.pos
  have hm' : (m : ℚ) + 1 ≤ 2 ^ mantissaBits := by exact_mod_cast h.lt
  constructor
  · calc (2 : ℚ) ^ (-1075 : Int) = 1 / 2 * 2 ^ minExponent := by
          rw [minExponent, show (-1075 : Int) = -1 + -1074 by rfl, zpow_add₀ two_ne_zero]
          norm_num
      _ ≤ 1 / 2 * 2 ^ e :=
          mul_le_mul_of_nonneg_left (zpow_le_zpow_right₀ (by norm_num) h.ge) (by norm_num)
      _ ≤ x / 2 ^ e * 2 ^ e := mul_le_mul_of_nonneg_right (by linarith) hunit.le
      _ = x := div_mul_cancel₀ x hunit.ne'
  · calc x = x / 2 ^ e * 2 ^ e := (div_mul_cancel₀ x hunit.ne').symm
      _ ≤ 2 ^ mantissaBits * 2 ^ e := mul_le_mul_of_nonneg_right (by linarith) hunit.le
      _ ≤ 2 ^ mantissaBits * 2 ^ maxExponent :=
          mul_le_mul_of_nonneg_left (zpow_le_zpow_right₀ (by norm_num) h.le) (by positivity)
      _ = 2 ^ (1024 : Int) := by
          rw [← zpow_natCast, ← zpow_add₀ two_ne_zero]
          rfl

theorem two_pow_le_ten_pow : (2 : ℚ) ^ 1075 ≤ 10 ^ 330 :=
  calc (2 : ℚ) ^ 1075 = (2 ^ 215) ^ 5 := by rw [← pow_mul]
    _ ≤ (10 ^ 66) ^ 5 := pow_le_pow_left₀ (by positivity) (by norm_num) 5
    _ = 10 ^ 330 := by rw [← pow_mul]

/-- A decimal number in the interval around a number is read as the number. -/
theorem ofDecimal_of_contains {m : Nat} {e : Int} (h : IsPositive m e) {d : Nat} {k : Int}
    (hx : (neighbourhood m e).Contains (d * 10 ^ k)) (negative : Bool) :
    ofDecimal negative d k = .finite negative m e := by
  obtain ⟨hleft, hright⟩ := bounds_of_contains h hx
  have hd : d ≠ 0 := by
    rintro rfl
    rw [Nat.cast_zero, zero_mul] at hleft
    exact absurd hleft (not_le.2 (by positivity))
  obtain ⟨hlow, hhigh⟩ := decimal_bounds hd k
  have hsmall : ¬((Nat.toDigits 10 d).length + k : Int) < -330 := by
    intro hsize
    have hle : (10 : ℚ) ^ ((Nat.toDigits 10 d).length + k : Int) ≤ 10 ^ (-330 : Int) :=
      zpow_le_zpow_right₀ (by norm_num) hsize.le
    have hinv : (10 : ℚ) ^ (-330 : Int) ≤ 2 ^ (-1075 : Int) := by
      rw [zpow_neg, zpow_neg]
      exact inv_anti₀ (by positivity) two_pow_le_ten_pow
    exact absurd (hhigh.trans_le (hle.trans hinv)) (not_lt.2 hleft)
  have hlarge : ¬330 < ((Nat.toDigits 10 d).length + k : Int) := by
    intro hsize
    have hle : (10 : ℚ) ^ (330 : Int) ≤ 10 ^ ((Nat.toDigits 10 d).length + k - 1 : Int) :=
      zpow_le_zpow_right₀ (by norm_num) (by omega)
    have hlt : (2 : ℚ) ^ (1024 : Int) < 2 ^ (1075 : Int) := zpow_lt_zpow_right₀ (by norm_num) (by norm_num)
    have hpowers : (2 : ℚ) ^ (1075 : Int) ≤ 10 ^ (330 : Int) := two_pow_le_ten_pow
    exact absurd (hpowers.trans (hle.trans (hlow.trans hright))) (not_le.2 hlt)
  rw [decimal_eq_div] at hx
  simp only [ofDecimal, hd, hsmall, hlarge, decide_false, Bool.or_false, Bool.false_eq_true, if_false]
  exact ofQuotient_of_contains h (Nat.pow_pos (by decide)) hx negative

theorem isProper_ofDecimal (negative : Bool) (d : Nat) (k : Int) : (ofDecimal negative d k).IsProper := by
  unfold ofDecimal
  dsimp only
  split
  · exact .inl ⟨rfl, rfl⟩
  split
  · trivial
  · exact isProper_ofQuotient negative _ (Nat.pow_pos (by decide))

end ClientGen.Binary64
