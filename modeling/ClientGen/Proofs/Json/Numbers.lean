import ClientGen.Json.Reader
import ClientGen.Json.Writer
import ClientGen.Proofs.Number.Shortest
/-!
# Numbers in JSON

The number that is written is the one that is read, up to the comma or the line feed behind it: an integer by its
digits, a floating-point number because its digits denote a number that is rounded to it.
-/

namespace ClientGen.Json

open Text Binary64

/-! ## What stands behind a number -/

/-- The text behind a part of an object or a list. -/
def IsEnd (r : Text) : Prop := ∃ c r', r = c :: r' ∧ (c = ',' ∨ c = '\n')

/-- A text that does not begin with a digit. -/
def EndsDigits (r : Text) : Prop := ∀ c r', r = c :: r' → isDigit c = false

theorem endsDigits_cons {c : Char} (h : isDigit c = false) (r : Text) : EndsDigits (c :: r) :=
  fun _ _ hcons => (List.cons_eq_cons.1 hcons).1 ▸ h

theorem IsEnd.endsDigits {r : Text} (h : IsEnd r) : EndsDigits r := by
  obtain ⟨c, r, rfl, rfl | rfl⟩ := h <;> exact endsDigits_cons (by decide) r

theorem IsEnd.fraction {r : Text} (h : IsEnd r) : fraction r = ([], r) := by
  obtain ⟨c, r, rfl, rfl | rfl⟩ := h <;> rfl

theorem exponent_of_ne {c : Char} (h : c ≠ 'e' ∧ c ≠ 'E') (r : Text) : exponent (c :: r) = (none, c :: r) := by
  unfold exponent
  split <;> simp_all

theorem IsEnd.exponent {r : Text} (h : IsEnd r) : exponent r = (none, r) := by
  obtain ⟨c, r, rfl, rfl | rfl⟩ := h <;> exact exponent_of_ne (by decide) r

theorem takeWhile_digits {digits r : Text} (hdigits : ∀ c ∈ digits, isDigit c = true) (hr : EndsDigits r) :
    (digits ++ r).takeWhile isDigit = digits ∧ (digits ++ r).dropWhile isDigit = r := by
  rw [List.takeWhile_append_of_pos hdigits, List.dropWhile_append_of_pos hdigits]
  cases r with
  | nil => simp
  | cons c r =>
    have hc := hr c r rfl
    simp [hc]

/-! ## Digits, fractions and exponents -/

/-- Digits in front of a point: a zero, or a numeral. -/
def IsWhole (t : Text) : Prop := t = ['0'] ∨ IsNumeral t

theorem IsWhole.ne_nil {t : Text} (h : IsWhole t) : t ≠ [] := by
  rcases h with rfl | h
  · exact List.cons_ne_nil _ _
  · obtain ⟨c, r, rfl, -⟩ := h.first
    exact List.cons_ne_nil _ _

theorem isWhole_ofNat (n : Nat) : IsWhole (ofNat n) := by
  by_cases h : n = 0
  · exact .inl (h ▸ Nat.toDigits_zero 10)
  · exact .inr (isNumeral_ofNat h)

variable {whole places r rest : Text} {power? : Option Int}

/-- A number whose whole digits are already read. -/
def behindWhole (negative : Bool) (whole t : Text) : Except ReadError (Scalar × Text) :=
  let (places, rest) := fraction t
  let (power?, rest) := exponent rest
  if places = [] && power?.isNone then
    if maxDigits < whole.length then .error .tooManyDigits
    else
      let n : Int := decimalNumber whole
      .ok (.int (if negative then -n else n), rest)
  else
    .ok (.float (.ofDecimal negative (decimalNumber (whole ++ places)) (power?.getD 0 - places.length)), rest)

/-- The whole digits at the beginning of a text; behind a zero there are no more. -/
def wholeDigits (t : Text) : Text :=
  match t with
  | '0' :: _ => ['0']
  | _ => t.takeWhile Text.isDigit

theorem unsigned_eq (negative : Bool) (t : Text) :
    unsigned negative t =
      if wholeDigits t = [] then .error .malformed
      else behindWhole negative (wholeDigits t) (t.drop (wholeDigits t).length) :=
  rfl

theorem wholeDigits_append (hw : IsWhole whole) (hr : EndsDigits r) : wholeDigits (whole ++ r) = whole := by
  rcases hw with rfl | hw
  · rfl
  · obtain ⟨htake, -⟩ := takeWhile_digits hw.isDigit hr
    obtain ⟨c, t, rfl, hc⟩ := hw.first
    unfold wholeDigits
    split
    · next heq => exact absurd (List.cons_eq_cons.1 heq).1 hc
    · exact htake

theorem isDigit_of_mem_wholeDigits {t : Text} : ∀ c ∈ wholeDigits t, Text.isDigit c = true := by
  unfold wholeDigits
  split
  · decide
  · exact fun c hc => List.all_eq_true.1 List.all_takeWhile c hc

theorem unsigned_append (hw : IsWhole whole) (hr : EndsDigits r) (negative : Bool) :
    unsigned negative (whole ++ r) = behindWhole negative whole r := by
  rw [unsigned_eq, wholeDigits_append hw hr, if_neg hw.ne_nil, List.drop_left]

theorem unsigned_int (hw : IsWhole whole) (hlength : whole.length ≤ maxDigits) (hr : IsEnd r) (negative : Bool) :
    unsigned negative (whole ++ r) =
      .ok (.int (if negative then -(decimalNumber whole : Int) else decimalNumber whole), r) := by
  rw [unsigned_append hw hr.endsDigits, behindWhole, hr.fraction]
  simp only [hr.exponent, Option.isNone_none, decide_true, Bool.and_true, if_true, if_neg (not_lt.2 hlength)]

theorem unsigned_float (hw : IsWhole whole) (hr : EndsDigits r) (hfraction : fraction r = (places, rest))
    {rest' : Text} (hexponent : exponent rest = (power?, rest')) (h : places ≠ [] ∨ power? ≠ none) (negative : Bool) :
    unsigned negative (whole ++ r) =
      .ok (.float (.ofDecimal negative (decimalNumber (whole ++ places)) (power?.getD 0 - places.length)), rest') := by
  have hparts : ¬(places = [] ∧ power? = none) := fun ⟨hplaces, hpower⟩ => h.elim (· hplaces) (· hpower)
  rw [unsigned_append hw hr, behindWhole, hfraction]
  simp only [hexponent, Bool.and_eq_true, decide_eq_true_eq, Option.isNone_iff_eq_none, if_neg hparts]

theorem fraction_point (hne : places ≠ []) (hplaces : ∀ c ∈ places, isDigit c = true) (hr : EndsDigits r) :
    fraction ('.' :: (places ++ r)) = (places, r) := by
  obtain ⟨htake, hdrop⟩ := takeWhile_digits hplaces hr
  rw [fraction]
  simp only [htake, hdrop, hne, if_false]

/-- The mark of an exponent and its sign. -/
def powerMark (negative : Bool) : Text := if negative then "e-" else "e+"

theorem exponent_powerMark {digits : Text} (hne : digits ≠ []) (hdigits : ∀ c ∈ digits, isDigit c = true)
    (hr : EndsDigits r) (negative : Bool) :
    exponent (powerMark negative ++ digits ++ r) =
      (some (if negative then -(decimalNumber digits : Int) else decimalNumber digits), r) := by
  obtain ⟨htake, hdrop⟩ := takeWhile_digits hdigits hr
  cases negative
  · change exponent ('e' :: '+' :: (digits ++ r)) = _
    simp [exponent, htake, hdrop, hne]
  · change exponent ('e' :: '-' :: (digits ++ r)) = _
    simp [exponent, htake, hdrop, hne]

/-! ## Numbers as they are written -/

private theorem decimalNumber_replicate_append (n : Nat) (t : Text) :
    decimalNumber (List.replicate n '0' ++ t) = decimalNumber t := by
  change Nat.ofDigitChars 10 _ 0 = Nat.ofDigitChars 10 _ 0
  rw [Nat.ofDigitChars_append, Nat.ofDigitChars_replicate_zero, Nat.mul_zero]

private theorem decimalNumber_append_replicate (t : Text) (n : Nat) :
    decimalNumber (t ++ List.replicate n '0') = decimalNumber t * 10 ^ n := by
  change Nat.ofDigitChars 10 _ 0 = Nat.ofDigitChars 10 _ 0 * 10 ^ n
  rw [Nat.ofDigitChars_append, Nat.ofDigitChars_replicate_zero, Nat.mul_comm]

theorem decimalNumber_toDigits (n : Nat) : decimalNumber (Nat.toDigits 10 n) = n := Nat.ofDigitChars_ten_toDigits

private theorem isDigit_replicate (n : Nat) : ∀ c ∈ List.replicate n '0', isDigit c = true := by
  intro c hc
  rw [List.eq_of_mem_replicate hc]
  decide

private theorem padded_spec (n : Nat) :
    padded 10 2 n ≠ [] ∧ (∀ c ∈ padded 10 2 n, isDigit c = true) ∧ decimalNumber (padded 10 2 n) = n := by
  refine ⟨by simp [padded], fun c hc => ?_, ?_⟩
  · rcases List.mem_append.1 hc with hc | hc
    · exact isDigit_replicate _ c hc
    · exact isDigit_of_mem_toDigits hc
  · exact (decimalNumber_replicate_append _ _).trans (decimalNumber_toDigits n)

variable {digits : Text} (hd : IsNumeral digits) (hr : IsEnd r)
include hd hr

private theorem unsigned_small {point : Int} (hpoint : point ≤ 0) (negative : Bool) :
    unsigned negative ("0." ++ List.replicate (-point).toNat '0' ++ digits ++ r) =
      .ok (.float (.ofDecimal negative (decimalNumber digits) (point - digits.length)), r) := by
  have hplaces : ∀ c ∈ List.replicate (-point).toNat '0' ++ digits, isDigit c = true := fun c hc =>
    (List.mem_append.1 hc).elim (isDigit_replicate _ c) (hd.isDigit c)
  have hne : List.replicate (-point).toNat '0' ++ digits ≠ [] := by
    obtain ⟨c, t, rfl, -⟩ := hd.first
    simp
  have htext : "0." ++ List.replicate (-point).toNat '0' ++ digits ++ r =
      ['0'] ++ '.' :: (List.replicate (-point).toNat '0' ++ digits ++ r) := by simp
  have hvalue : decimalNumber (['0'] ++ (List.replicate (-point).toNat '0' ++ digits)) = decimalNumber digits :=
    decimalNumber_replicate_append (1 + (-point).toNat) digits ▸ by simp [List.replicate_add]
  have hpower : (none : Option Int).getD 0 - ((List.replicate (-point).toNat '0' ++ digits).length : Int) =
      point - digits.length := by
    rw [List.length_append, List.length_replicate, Option.getD_none]
    omega
  rw [htext, unsigned_float (.inl rfl) (endsDigits_cons (by decide) _) (fraction_point hne hplaces hr.endsDigits)
    hr.exponent (.inl hne), hvalue, hpower]

private theorem unsigned_whole (zeros : Nat) (negative : Bool) :
    unsigned negative (digits ++ List.replicate zeros '0' ++ ".0" ++ r) =
      .ok (.float (.ofDecimal negative (decimalNumber digits * 10 ^ (zeros + 1)) (-1)), r) := by
  have hwhole := hd.append (isDigit_replicate zeros)
  have htext (t : Text) : t ++ ".0" ++ r = t ++ '.' :: (['0'] ++ r) := by simp
  have hvalue : decimalNumber (digits ++ List.replicate zeros '0' ++ ['0']) =
      decimalNumber digits * 10 ^ (zeros + 1) := by
    rw [List.append_assoc, show ['0'] = List.replicate 1 '0' by rfl, List.replicate_append_replicate,
      decimalNumber_append_replicate]
  rw [htext, unsigned_float (.inr hwhole) (endsDigits_cons (by decide) _)
    (fraction_point (List.cons_ne_nil _ _) (by decide) hr.endsDigits) hr.exponent (.inl (List.cons_ne_nil _ _)), hvalue]
  rfl

private theorem unsigned_between {n : Nat} (hn : n ≠ 0) (hlt : n < digits.length) (negative : Bool) :
    unsigned negative (digits.take n ++ "." ++ digits.drop n ++ r) =
      .ok (.float (.ofDecimal negative (decimalNumber digits) (n - digits.length)), r) := by
  have hplaces : ∀ c ∈ digits.drop n, isDigit c = true := fun c hc => hd.isDigit c (List.mem_of_mem_drop hc)
  have hne : digits.drop n ≠ [] := by simpa using hlt
  have htext : digits.take n ++ "." ++ digits.drop n ++ r = digits.take n ++ '.' :: (digits.drop n ++ r) := by simp
  have hpower : (none : Option Int).getD 0 - ((digits.drop n).length : Int) = n - digits.length := by
    rw [List.length_drop, Option.getD_none]
    omega
  rw [htext, unsigned_float (.inr (hd.take hn)) (endsDigits_cons (by decide) _)
    (fraction_point hne hplaces hr.endsDigits) hr.exponent (.inl hne), List.take_append_drop, hpower]

private theorem unsigned_scientific (e : Int) (negative : Bool) :
    unsigned negative (digits.take 1 ++ (if digits.length ≤ 1 then [] else '.' :: digits.drop 1) ++
        powerMark (decide (e < 0)) ++ padded 10 2 e.natAbs ++ r) =
      .ok (.float (.ofDecimal negative (decimalNumber digits) (e + 1 - digits.length)), r) := by
  obtain ⟨hne, hdigits, hvalue⟩ := padded_spec e.natAbs
  have hends : EndsDigits (powerMark (decide (e < 0)) ++ padded 10 2 e.natAbs ++ r) := by
    unfold powerMark
    split <;> exact endsDigits_cons (by decide) _
  have hexponent : exponent (powerMark (decide (e < 0)) ++ padded 10 2 e.natAbs ++ r) = (some e, r) := by
    rw [exponent_powerMark hne hdigits hr.endsDigits, hvalue]
    congr
    simp only [decide_eq_true_eq]
    omega
  have hfraction : fraction ((if digits.length ≤ 1 then [] else '.' :: digits.drop 1) ++
      (powerMark (decide (e < 0)) ++ padded 10 2 e.natAbs ++ r)) =
        (digits.drop 1, powerMark (decide (e < 0)) ++ padded 10 2 e.natAbs ++ r) := by
    split
    · next hshort =>
      rw [List.drop_eq_nil_of_le hshort]
      unfold powerMark
      split <;> rfl
    · next hlong =>
      have hne : digits.drop 1 ≠ [] := by
        rw [Ne, List.drop_eq_nil_iff]
        exact hlong
      exact fraction_point hne (fun c hc => hd.isDigit c (List.mem_of_mem_drop hc)) hends
  have hbehind : EndsDigits ((if digits.length ≤ 1 then [] else '.' :: digits.drop 1) ++
      (powerMark (decide (e < 0)) ++ padded 10 2 e.natAbs ++ r)) := by
    split
    · exact hends
    · exact endsDigits_cons (by decide) _
  have hlength : 1 ≤ digits.length := by
    obtain ⟨c, t, rfl, -⟩ := hd.first
    simp
  have hpower : (some e).getD 0 - ((digits.drop 1).length : Int) = e + 1 - digits.length := by
    rw [List.length_drop, Option.getD_some]
    omega
  rw [List.append_assoc, List.append_assoc, List.append_assoc, ← List.append_assoc (powerMark _),
    unsigned_float (.inr (hd.take one_ne_zero)) hbehind hfraction hexponent (.inr (Option.some_ne_none e)),
    List.take_append_drop, hpower]

theorem unsigned_layout (point : Int) (negative : Bool) :
    ∃ d k, unsigned negative (layout digits point ++ r) = .ok (.float (.ofDecimal negative d k), r) ∧
      (d : ℚ) * 10 ^ k = decimalNumber digits * 10 ^ (point - digits.length) := by
  unfold layout
  dsimp only
  split
  · split
    · next hpoint => exact ⟨_, _, unsigned_small hd hr hpoint negative, rfl⟩
    split
    · next hpoint =>
      refine ⟨_, _, unsigned_whole hd hr _ negative, ?_⟩
      have hzeros : point - digits.length = (point.toNat - digits.length : Nat) := by omega
      rw [hzeros, zpow_natCast]
      push_cast
      rw [pow_succ, zpow_neg_one]
      field_simp
    · next hpos hlt =>
      refine ⟨_, _, unsigned_between hd hr (by omega) (not_le.1 hlt) negative, ?_⟩
      rw [Int.toNat_of_nonneg (by omega)]
  · have hmark : (if point - 1 < 0 then ("e-" : Text) else "e+") = powerMark (decide (point - 1 < 0)) := by
      simp [powerMark]
    rw [hmark]
    refine ⟨_, _, unsigned_scientific hd hr (point - 1) negative, ?_⟩
    rw [sub_add_cancel]

omit hr in
private theorem first_layout (point : Int) : ∃ c t, layout digits point = c :: t ∧ isDigit c = true := by
  obtain ⟨c, t, rfl, -⟩ := hd.first
  have hc := hd.isDigit c List.mem_cons_self
  unfold layout
  dsimp only
  split
  · split
    · exact ⟨'0', _, rfl, by decide⟩
    split
    · exact ⟨c, _, rfl, hc⟩
    · next hpos _ =>
      obtain ⟨n, hn⟩ := Nat.exists_eq_succ_of_ne_zero (show point.toNat ≠ 0 by omega)
      rw [hn]
      exact ⟨c, _, rfl, hc⟩
  · exact ⟨c, _, rfl, hc⟩

omit hd in
private theorem unsigned_size {m : Nat} {e : Int} (h : m = 0 ∧ e = minExponent ∨ IsPositive m e) (negative : Bool) :
    ∃ c t, toText (.finite false m e) = c :: t ∧ isDigit c = true ∧
      unsigned negative (c :: t ++ r) = .ok (.float (.finite negative m e), r) := by
  rcases h with ⟨rfl, rfl⟩ | h
  · refine ⟨'0', ['.', '0'], rfl, by decide, ?_⟩
    have hfraction : fraction ('.' :: (['0'] ++ r)) = (['0'], r) :=
      fraction_point (List.cons_ne_nil _ _) (by decide) hr.endsDigits
    exact unsigned_float (.inl rfl) (endsDigits_cons (by decide) _) hfraction hr.exponent
      (.inl (List.cons_ne_nil _ _)) negative
  · obtain ⟨hnumeral, hcontains⟩ := decimal_spec h
    have htext : toText (.finite false m e) = layout (decimal m e).1 ((decimal m e).1.length + (decimal m e).2) := by
      simp [toText, h.pos.ne']
    obtain ⟨c, t, hfirst, hc⟩ := first_layout hnumeral ((decimal m e).1.length + (decimal m e).2)
    obtain ⟨d, k, hread, hvalue⟩ := unsigned_layout hnumeral hr ((decimal m e).1.length + (decimal m e).2) negative
    refine ⟨c, t, htext.trans hfirst, hc, ?_⟩
    rw [← hfirst, hread, ofDecimal_of_contains h]
    rw [hvalue, add_sub_cancel_left]
    exact hcontains

omit hd hr

/-! ## Values without parts -/

private theorem bare_of_isDigit {c : Char} (hc : isDigit c = true) (t : Text) :
    bare (c :: t) = unsigned false (c :: t) ∧ bare ('-' :: c :: t) = unsigned true (c :: t) := by
  have hne (d : Char) (hd : isDigit d = false) : d ≠ c := by
    rintro rfl
    rw [hc] at hd
    cases hd
  have hn := hne 'n' (by decide)
  have ht := hne 't' (by decide)
  have hf := hne 'f' (by decide)
  have hN := hne 'N' (by decide)
  have hI := hne 'I' (by decide)
  have hminus := hne '-' (by decide)
  constructor
  · have hnone : names.findSome? (fun e => (afterStart? e.1 (c :: t)).map (e.2, ·)) = none := by
      simp [names, List.findSome?, afterStart?, hn, ht, hf, hN, hI, hminus]
    unfold bare
    split
    · next hsome => cases hnone.symm.trans hsome
    split
    · next heq => exact absurd (List.cons_eq_cons.1 heq).1.symm hminus
    · rfl
  · have hnone : names.findSome? (fun e => (afterStart? e.1 ('-' :: c :: t)).map (e.2, ·)) = none := by
      simp [names, List.findSome?, afterStart?, hI]
    unfold bare
    split
    · next hsome => cases hnone.symm.trans hsome
    · rfl

/-- The values without parts that JSON has. -/
def IsJsonScalar : Scalar → Prop
  | .null => True
  | .bool _ => True
  | .int n => (ofNat n.natAbs).length ≤ maxDigits
  | .float x => x.IsProper
  | .text _ => True
  | _ => False

variable {s : Scalar}

private theorem bare_ofInt {n : Int} (hn : (ofNat n.natAbs).length ≤ maxDigits) (hr : IsEnd r) :
    bare (Text.ofInt n ++ r) = .ok (.int n, r) := by
  have hread := unsigned_int (isWhole_ofNat n.natAbs) hn hr
  have hvalue : decimalNumber (ofNat n.natAbs) = n.natAbs := decimalNumber_toDigits n.natAbs
  obtain ⟨c, t, hfirst⟩ := List.exists_cons_of_ne_nil (Nat.toDigits_ne_nil (n := n.natAbs) (b := 10))
  have hc : isDigit c = true := isDigit_of_mem_toDigits (n := n.natAbs) (hfirst ▸ List.mem_cons_self)
  have hfirst : ofNat n.natAbs = c :: t := hfirst
  rw [hvalue, hfirst] at hread
  cases n with
  | ofNat n =>
    change bare (ofNat (Int.ofNat n).natAbs ++ r) = _
    rw [hfirst]
    exact (bare_of_isDigit hc (t ++ r)).1.trans (hread false)
  | negSucc n =>
    change bare ('-' :: ofNat (Int.negSucc n).natAbs ++ r) = _
    rw [hfirst]
    exact (bare_of_isDigit hc (t ++ r)).2.trans (hread true)

private theorem bare_finite {negative : Bool} {m : Nat} {e : Int} (h : (Binary64.finite negative m e).IsProper)
    (hr : IsEnd r) : bare (toText (.finite negative m e) ++ r) = .ok (.float (.finite negative m e), r) := by
  obtain ⟨c, t, htext, hc, hread⟩ := unsigned_size hr h negative
  cases negative with
  | false =>
    rw [htext]
    exact (bare_of_isDigit hc (t ++ r)).1.trans hread
  | true =>
    change bare ('-' :: toText (.finite false m e) ++ r) = _
    rw [htext]
    exact (bare_of_isDigit hc (t ++ r)).2.trans hread

theorem bare_writeScalar (hs : IsJsonScalar s) (hr : IsEnd r) (htext : ∀ t, s ≠ .text t) :
    bare (writeScalar s ++ r) = .ok (s, r) := by
  cases s with
  | null => rfl
  | bool b => cases b <;> rfl
  | int n => exact bare_ofInt hs hr
  | float x =>
    cases x with
    | finite negative m e => exact bare_finite hs hr
    | infinite negative => cases negative <;> rfl
    | nan => rfl
  | text t => exact absurd rfl (htext t)
  | date d => cases hs
  | moment m => cases hs
  | bytes bs => cases hs

private theorem isJsonScalar_unsigned {negative : Bool} {t rest : Text}
    (h : unsigned negative t = .ok (s, rest)) : IsJsonScalar s := by
  rw [unsigned_eq] at h
  split at h
  · cases h
  · next hne =>
    unfold behindWhole at h
    dsimp only at h
    split at h
    · split at h
      · cases h
      · next hlength =>
        obtain ⟨rfl, -⟩ := Prod.mk.inj (Except.ok.inj h)
        have hlt : decimalNumber (wholeDigits t) < 10 ^ (wholeDigits t).length :=
          ofDigitChars_lt isDigit_of_mem_wholeDigits
        have hsize : (if negative then -(decimalNumber (wholeDigits t) : Int)
            else decimalNumber (wholeDigits t)).natAbs = decimalNumber (wholeDigits t) := by
          split <;> omega
        change (ofNat (Int.natAbs _)).length ≤ maxDigits
        rw [hsize]
        have hdigits := (Nat.length_toDigits_le_iff (by decide) (List.length_pos_iff.2 hne)).2 hlt
        exact hdigits.trans (not_lt.1 hlength)
    · obtain ⟨rfl, -⟩ := Prod.mk.inj (Except.ok.inj h)
      exact isProper_ofDecimal _ _ _

theorem isJsonScalar_bare {t rest : Text} (h : bare t = .ok (s, rest)) : IsJsonScalar s := by
  have hnames : ∀ e ∈ names, IsJsonScalar e.2 := by simp [names, IsJsonScalar, Binary64.IsProper]
  unfold bare at h
  split at h
  · next hfound =>
    obtain ⟨e, he, hsome⟩ := List.exists_of_findSome?_eq_some hfound
    obtain ⟨t', -, heq⟩ := Option.map_eq_some_iff.1 hsome
    cases h
    cases heq
    exact hnames e he
  · split at h <;> exact isJsonScalar_unsigned h

/-! ## Line ends -/

private theorem ne_of_isDigit {c : Char} (hc : isDigit c = true) : c ≠ '\r' := by
  rintro rfl
  cases hc

private theorem notMem_layout (hd : IsNumeral digits) (point : Int) : '\r' ∉ layout digits point := by
  have hdigits : '\r' ∉ digits := fun h => ne_of_isDigit (hd.isDigit _ h) rfl
  have htake (n : Nat) : '\r' ∉ digits.take n := fun h => hdigits (List.mem_of_mem_take h)
  have hdrop (n : Nat) : '\r' ∉ digits.drop n := fun h => hdigits (List.mem_of_mem_drop h)
  have hzeros (n : Nat) : '\r' ∉ List.replicate n '0' := fun h => ne_of_isDigit (isDigit_replicate n _ h) rfl
  have hpower (n : Nat) : '\r' ∉ padded 10 2 n := fun h => ne_of_isDigit ((padded_spec n).2.1 _ h) rfl
  have hfraction : '\r' ∉ if digits.length ≤ 1 then [] else '.' :: digits.drop 1 := by
    split
    · exact List.not_mem_nil
    · exact List.not_mem_cons_of_ne_of_not_mem (by decide) (hdrop 1)
  have hmark : '\r' ∉ if point - 1 < 0 then ("e-" : Text) else "e+" := by split <;> decide
  unfold layout
  dsimp only
  split
  · split
    · exact List.not_mem_append (List.not_mem_append (by decide) (hzeros _)) hdigits
    split
    · exact List.not_mem_append (List.not_mem_append hdigits (hzeros _)) (by decide)
    · exact List.not_mem_append (List.not_mem_append (htake _) (by decide)) (hdrop _)
  · exact List.not_mem_append (List.not_mem_append (List.not_mem_append (htake 1) hfraction) hmark) (hpower _)

theorem notMem_writeScalar (hs : IsJsonScalar s) (htext : ∀ t, s ≠ .text t) : '\r' ∉ writeScalar s := by
  have hnat (n : Nat) : '\r' ∉ ofNat n := fun h => ne_of_isDigit (isDigit_of_mem_toDigits h) rfl
  cases s with
  | null => decide
  | bool b => cases b <;> decide
  | int n =>
    cases n with
    | ofNat n => exact hnat n
    | negSucc n => exact List.not_mem_cons_of_ne_of_not_mem (by decide) (hnat (n + 1))
  | float x =>
    cases x with
    | finite negative m e =>
      have hsize : '\r' ∉ toText (.finite false m e) := by
        rcases hs with ⟨rfl, rfl⟩ | h
        · decide
        · simpa [toText, h.pos.ne'] using notMem_layout (decimal_spec h).1 _
      cases negative with
      | false => exact hsize
      | true => exact List.not_mem_cons_of_ne_of_not_mem (by decide) hsize
    | infinite negative => cases negative <;> decide
    | nan => decide
  | text t => exact absurd rfl (htext t)
  | date d => cases hs
  | moment m => cases hs
  | bytes bs => cases hs

end ClientGen.Json
