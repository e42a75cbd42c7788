import ClientGen.Proofs.Number.Rounding
import Mathlib.Data.Nat.Cast.Order.Field
/-!
# Decimal texts of binary numbers

The digits that are searched for lie in the interval around the number: those of seventeen places at the latest, since
the grid of that many places is finer than the interval.
-/

namespace ClientGen.Binary64

namespace Neighbourhood

variable {b : Neighbourhood}

/-! ## Grids -/

private theorem mul_zpow_le_iff (l d : Nat) (u k : Int) :
    ((l : ℚ) * 2 ^ u ≤ d * 10 ^ k ↔
      l * (Nat.pow 10 (-k).toNat * Nat.pow 2 u.toNat) ≤ d * Nat.pow 10 k.toNat * Nat.pow 2 (-u).toNat) ∧
    ((d : ℚ) * 10 ^ k ≤ l * 2 ^ u ↔
      d * Nat.pow 10 k.toNat * Nat.pow 2 (-u).toNat ≤ l * (Nat.pow 10 (-k).toNat * Nat.pow 2 u.toNat)) := by
  rw [zpow_eq_div two_ne_zero u, zpow_eq_div (by norm_num) k, mul_div_assoc', mul_div_assoc',
    div_le_div_iff₀ (by positivity) (by positivity), div_le_div_iff₀ (by positivity) (by positivity)]
  simp only [Nat.pow_eq, ← @Nat.cast_le ℚ, Nat.cast_mul, Nat.cast_pow, Nat.cast_ofNat]
  constructor
  · ring_nf
  · ring_nf

theorem covers_iff (b : Neighbourhood) (d : Nat) (k : Int) : b.covers d k = true ↔ b.Contains (d * 10 ^ k) := by
  obtain ⟨hlow, hlow'⟩ := mul_zpow_le_iff b.low d b.unit k
  obtain ⟨hhigh', hhigh⟩ := mul_zpow_le_iff b.high d b.unit k
  unfold covers Contains
  dsimp only
  split
  · rw [Bool.and_eq_true, decide_eq_true_eq, decide_eq_true_eq, hlow, hhigh]
  · rw [Bool.and_eq_true, decide_eq_true_eq, decide_eq_true_eq, ← not_le, ← not_le, ← not_le, ← not_le, hlow', hhigh']

theorem floor_spec (b : Neighbourhood) (k : Int) :
    ((b.floor k).1 : ℚ) * 10 ^ k ≤ b.value * 2 ^ b.unit ∧
      (b.value : ℚ) * 2 ^ b.unit < ((b.floor k).1 + 1 : Nat) * 10 ^ k := by
  have hden : 0 < Nat.pow 2 (-b.unit).toNat * Nat.pow 10 k.toNat :=
    Nat.mul_pos (Nat.pow_pos (by decide)) (Nat.pow_pos (by decide))
  have hfloor : (b.floor k).1 =
      b.value * Nat.pow 2 b.unit.toNat * Nat.pow 10 (-k).toNat / (Nat.pow 2 (-b.unit).toNat * Nat.pow 10 k.toNat) := rfl
  have hsides (n : Nat) : (n : ℚ) * 10 ^ k ≤ b.value * 2 ^ b.unit ↔
      n * (Nat.pow 2 (-b.unit).toNat * Nat.pow 10 k.toNat) ≤
        b.value * Nat.pow 2 b.unit.toNat * Nat.pow 10 (-k).toNat := by
    rw [(mul_zpow_le_iff b.value n b.unit k).2]
    ring_nf
  rw [← not_le, hsides, hsides, not_le, hfloor]
  exact ⟨Nat.div_mul_le_self _ _, (Nat.div_lt_iff_lt_mul hden).1 (Nat.lt_succ_self _)⟩

private theorem zpow_length_le {n places : Nat} {x : ℚ} (h : n ≠ 0 ∧ n ≤ x * 10 ^ places) :
    (10 : ℚ) ^ (((Nat.toDigits 10 n).length : Int) - places - 1) ≤ x := by
  obtain ⟨hlow, -⟩ := Text.toDigits_bounds h.1
  have hlength : 0 < (Nat.toDigits 10 n).length := Nat.length_toDigits_pos
  have heq : ((Nat.toDigits 10 n).length : Int) - places - 1 =
      ((Nat.toDigits 10 n).length - 1 : Nat) - (places : Nat) := by
    omega
  have hlow : (10 : ℚ) ^ ((Nat.toDigits 10 n).length - 1) ≤ n := by exact_mod_cast hlow
  rw [heq, zpow_sub₀ (by norm_num), zpow_natCast, zpow_natCast, div_le_iff₀ (by positivity)]
  exact hlow.trans h.2

private theorem scaled_spec (b : Neighbourhood) (places : Nat) (h : 1 ≤ (b.value : ℚ) * 2 ^ b.unit * 10 ^ places) :
    b.value * Nat.pow 2 b.unit.toNat * Nat.pow 10 places / Nat.pow 2 (-b.unit).toNat ≠ 0 ∧
      ((b.value * Nat.pow 2 b.unit.toNat * Nat.pow 10 places / Nat.pow 2 (-b.unit).toNat : Nat) : ℚ) ≤
        b.value * 2 ^ b.unit * 10 ^ places := by
  have hden : 0 < Nat.pow 2 (-b.unit).toNat := Nat.pow_pos (by decide)
  have hquotient : (b.value : ℚ) * 2 ^ b.unit * 10 ^ places =
      (b.value * Nat.pow 2 b.unit.toNat * Nat.pow 10 places : Nat) / (Nat.pow 2 (-b.unit).toNat : Nat) := by
    rw [zpow_eq_div two_ne_zero]
    simp only [Nat.pow_eq, Nat.cast_mul, Nat.cast_pow, Nat.cast_ofNat]
    ring
  rw [hquotient] at h ⊢
  rw [one_le_div₀ (by exact_mod_cast hden)] at h
  exact ⟨(Nat.div_pos (by exact_mod_cast h) hden).ne', Nat.cast_div_le⟩

theorem magnitude_spec (b : Neighbourhood) (h : 1 ≤ (b.value : ℚ) * 2 ^ b.unit * 10 ^ 400) :
    (10 : ℚ) ^ (b.magnitude - 1) ≤ b.value * 2 ^ b.unit := by
  apply zpow_length_le
  apply scaled_spec
  exact h

/-! ## The search -/

theorem contains_shortest (b : Neighbourhood) (p : Int) (last : Nat) {tries n : Nat} (hn : n ≤ last)
    (htries : n + tries = last + 1)
    (h : b.Contains ((b.floor (p - last)).1 * 10 ^ (p - last)) ∨
      b.Contains (((b.floor (p - last)).1 + 1 : Nat) * 10 ^ (p - last))) :
    b.Contains ((b.shortest p tries n).1 * 10 ^ (b.shortest p tries n).2) := by
  induction tries generalizing n with
  | zero => omega
  | succ tries ih =>
    rw [shortest]
    dsimp only
    split
    · next hfloor hnext =>
      split
      · exact (covers_iff b _ _).1 hnext
      · exact (covers_iff b _ _).1 hfloor
    · next hfloor _ => exact (covers_iff b _ _).1 hfloor
    · next _ hnext => exact (covers_iff b _ _).1 hnext
    · next hfloor hnext =>
      have hne : n ≠ last := by
        rintro rfl
        rw [← covers_iff, ← covers_iff, hfloor, hnext] at h
        simp at h
      exact ih (by omega) (by omega)

end Neighbourhood

/-! ## Seventeen digits -/

variable {m : Nat} {e : Int}

theorem value_neighbourhood (m : Nat) (e : Int) :
    ((neighbourhood m e).value : ℚ) * 2 ^ (neighbourhood m e).unit = m * 2 ^ e := by
  simp only [neighbourhood]
  rw [zpow_sub₀ two_ne_zero]
  push_cast
  ring

theorem contains_self (h : IsPositive m e) : (neighbourhood m e).Contains (m * 2 ^ e) := by
  rw [contains_neighbourhood_iff h.pos, mul_div_cancel_right₀ _ (by positivity), isNearest_iff]
  refine ⟨?_, fun _ _ => by linarith⟩
  split <;> constructor <;> linarith

theorem contains_floor (h : IsPositive m e) {k : Int} (hk : (10 : ℚ) ^ k * 10 ^ 16 ≤ m * 2 ^ e) :
    (neighbourhood m e).Contains (((neighbourhood m e).floor k).1 * 10 ^ k) ∨
      (neighbourhood m e).Contains ((((neighbourhood m e).floor k).1 + 1 : Nat) * 10 ^ k) := by
  obtain ⟨hbelow, habove⟩ := (neighbourhood m e).floor_spec k
  rw [value_neighbourhood] at hbelow habove
  generalize ((neighbourhood m e).floor k).1 = d at *
  have hunit : (0 : ℚ) < 2 ^ e := by positivity
  obtain ⟨step, hstep⟩ : ∃ step : ℚ, (10 : ℚ) ^ k = step * 2 ^ e := ⟨10 ^ k / 2 ^ e, by field_simp⟩
  have hpoint (n : Nat) : (n : ℚ) * (step * 2 ^ e) / 2 ^ e = n * step := by field_simp
  rw [hstep] at hk hbelow habove ⊢
  rw [contains_neighbourhood_iff h.pos, contains_neighbourhood_iff h.pos, hpoint, hpoint, isNearest_iff, isNearest_iff]
  rw [← mul_assoc, mul_le_mul_iff_left₀ hunit] at hbelow
  rw [← mul_assoc, mul_lt_mul_iff_left₀ hunit] at habove
  rw [mul_right_comm, mul_le_mul_iff_left₀ hunit] at hk
  -- In units of the last place the step is less than one, and than half of that for a power of two.
  have hm : (m : ℚ) ≤ 2 ^ 53 := by exact_mod_cast h.lt.le
  have hone : step < 1 := by linarith
  have hhalf (hpower : m = 2 ^ (mantissaBits - 1)) : step < 1 / 2 := by
    rw [hpower] at hk
    norm_num [mantissaBits] at hk
    linarith
  push_cast at habove ⊢
  rcases le_or_gt ((m : ℚ) - d * step) (step / 2) with hnear | hfar
  · left
    refine ⟨?_, fun hpower _ => ?_⟩
    · split <;> constructor <;> linarith
    · have := hhalf hpower
      linarith
  · right
    refine ⟨?_, fun _ _ => by linarith⟩
    split <;> constructor <;> linarith

theorem contains_shortest (h : IsPositive m e) :
    let found := (neighbourhood m e).shortest (neighbourhood m e).magnitude 17 1
    (neighbourhood m e).Contains (found.1 * 10 ^ found.2) := by
  have hlow := (bounds_of_contains h (contains_self h)).1
  have hscaled : 1 ≤ (m : ℚ) * 2 ^ e * 10 ^ 400 :=
    calc (1 : ℚ) = 2 ^ (-1075 : Int) * 2 ^ (1075 : Int) := by rw [← zpow_add₀ two_ne_zero]; rfl
      _ ≤ m * 2 ^ e * 10 ^ 400 := by
        refine mul_le_mul hlow ?_ (by positivity) (by positivity)
        exact two_pow_le_ten_pow.trans (pow_le_pow_right₀ (by norm_num) (by norm_num))
  rw [← value_neighbourhood] at hscaled
  have hmagnitude := (neighbourhood m e).magnitude_spec hscaled
  rw [value_neighbourhood] at hmagnitude
  generalize (neighbourhood m e).magnitude = p at *
  have hgrid : (10 : ℚ) ^ (p - (17 : Nat)) * 10 ^ 16 ≤ m * 2 ^ e := by
    rw [← zpow_natCast, ← zpow_add₀ (by norm_num), show p - (17 : Nat) + (16 : Nat) = p - 1 by omega]
    exact hmagnitude
  exact Neighbourhood.contains_shortest _ p 17 (by decide) rfl (contains_floor h hgrid)

/-- The digits of a number form a numeral that denotes a number in the interval. -/
theorem decimal_spec (h : IsPositive m e) :
    Text.IsNumeral (decimal m e).1 ∧
      (neighbourhood m e).Contains (Nat.ofDigitChars 10 (decimal m e).1 0 * 10 ^ (decimal m e).2) := by
  have hfound := contains_shortest h
  unfold decimal
  dsimp only at hfound ⊢
  generalize (neighbourhood m e).shortest _ 17 1 = found at *
  obtain ⟨d, k⟩ := found
  dsimp only at hfound ⊢
  have hd : d ≠ 0 := by
    rintro rfl
    have hlow := (bounds_of_contains h hfound).1
    rw [Nat.cast_zero, zero_mul] at hlow
    exact absurd hlow (not_le.2 (by positivity))
  obtain ⟨hkept, hvalue⟩ := (Text.isNumeral_ofNat hd).dropZeros
  refine ⟨hkept, ?_⟩
  rw [show Nat.ofDigitChars 10 (Text.ofNat d) 0 = d from Nat.ofDigitChars_ten_toDigits] at hvalue
  rw [hvalue] at hfound
  rw [zpow_add₀ (by norm_num), zpow_natCast, mul_comm ((10 : ℚ) ^ k), ← mul_assoc, mul_comm (Nat.cast _)]
  exact_mod_cast hfound

end ClientGen.Binary64
