import ClientGen.Naming
import ClientGen.Proofs.TypeScript.Nesting
import ClientGen.TypeScript.Members
/-!
# Identifiers

The characters of identifiers mean nothing to the scanners of source text, and the names that the library
makes for request functions and path parameters are identifiers.
-/

namespace ClientGen

open Text

namespace Text

/-- What holds of the first characters holds of every character among them. -/
theorem forall_toNat_lt {P : Char → Prop} {bound : Nat} (h : ∀ n < bound, P (Char.ofNat n)) :
    ∀ c : Char, c.toNat < bound → P c := by
  intro c hc
  have hcode := h c.toNat hc
  rwa [Char.ofNat_toNat] at hcode

private theorem toNat_of_isIdentChar {c : Char} (h : isIdentChar c = true) :
    c = '_' ∨ c = '$' ∨ 97 ≤ c.toNat ∧ c.toNat ≤ 122 ∨ 65 ≤ c.toNat ∧ c.toNat ≤ 90 ∨
      48 ≤ c.toNat ∧ c.toNat ≤ 57 := by
  simp only [isIdentChar, isIdentStart, isLetter, isDigit, Bool.or_eq_true, Bool.and_eq_true,
    decide_eq_true_eq, beq_iff_eq, Char.le_def, UInt32.le_iff_toNat_le] at h
  rcases h with (((h | h) | h) | h) | h
  · exact .inr (.inr (.inl h))
  · exact .inr (.inr (.inr (.inl h)))
  · exact .inl h
  · exact .inr (.inl h)
  · exact .inr (.inr (.inr (.inr h)))

theorem ne_of_isIdentChar {c d : Char} (hc : isIdentChar c = true) (hd : isIdentChar d = false) :
    c ≠ d := by
  rintro rfl
  simp [hc] at hd

theorem isIdentChar_of_isIdentStart {c : Char} (h : isIdentStart c = true) : isIdentChar c = true := by
  simp [isIdentChar, h]

theorem isBlank_of_isIdentChar {c : Char} (h : isIdentChar c = true) : isBlank c = false := by
  rcases toNat_of_isIdentChar h with rfl | rfl | h
  · decide
  · decide
  · have hcode : 33 ≤ c.toNat ∧ c.toNat ≤ 132 := by omega
    refine List.any_eq_false.2 ?_
    rintro ⟨lo, hi⟩ hr
    have hout : ∀ r ∈ blankRanges, r.2 < 33 ∨ 132 < r.1 := by decide
    have := hout _ hr
    simp only [Bool.and_eq_true, decide_eq_true_eq]
    omega

theorem isIdentifier_iff {t : Text} :
    isIdentifier t = true ↔
      ∃ c cs, t = c :: cs ∧ isIdentStart c = true ∧ ∀ d ∈ cs, isIdentChar d = true := by
  cases t <;> simp [isIdentifier]

theorem isIdentChar_of_mem {t : Text} (h : isIdentifier t = true) :
    ∀ c ∈ t, isIdentChar c = true := by
  obtain ⟨c, cs, rfl, hc, hcs⟩ := isIdentifier_iff.1 h
  intro d hd
  rcases List.mem_cons.1 hd with rfl | hd
  · exact isIdentChar_of_isIdentStart hc
  · exact hcs d hd

theorem ne_nil_of_isIdentifier {t : Text} (h : isIdentifier t = true) : t ≠ [] := by
  obtain ⟨c, cs, rfl, -⟩ := isIdentifier_iff.1 h
  exact List.cons_ne_nil c cs

end Text

namespace Source

theorem isPlain_of_isIdentChar {c : Char} (h : isIdentChar c = true) : isPlain c = true := by
  have hne (d : Char) (hd : isIdentChar d = false) : c ≠ d := ne_of_isIdentChar h hd
  simp [isPlain, isQuote, closer?, isCloser, hne '\'' (by decide), hne '"' (by decide),
    hne '\x60' (by decide), hne '\x7b' (by decide), hne '(' (by decide), hne '[' (by decide),
    hne '\x7d' (by decide), hne ')' (by decide), hne ']' (by decide)]

theorem isNameChar_of_isIdentChar {c : Char} (h : isIdentChar c = true) : isNameChar c = true := by
  have hlow : c.toNat < 0x80 := by
    rcases toNat_of_isIdentChar h with rfl | rfl | h
    · decide
    · decide
    · omega
  simp only [isIdentChar, isIdentStart, Bool.or_eq_true] at h
  simp only [isNameChar, isWord, hlow, if_true, Bool.or_eq_true]
  tauto

theorem nameAt?_append {c : Char} {cs r : Text} (hc : isIdentStart c = true) (hcs : ∀ d ∈ cs, isNameChar d = true)
    (hr : ∀ c ∈ r.head?, isNameChar c = false) : nameAt? (c :: cs ++ r) = some (c :: cs, r) := by
  have htake : r.takeWhile isNameChar = [] ∧ r.dropWhile isNameChar = r := by
    cases r with
    | nil => simp
    | cons d r => simp [hr d (by simp)]
  simp only [List.cons_append, nameAt?, hc, if_true]
  rw [List.takeWhile_append_of_pos hcs, List.dropWhile_append_of_pos hcs, htake.1, htake.2,
    List.append_nil]

theorem nameAt?_identifier {n r : Text} (h : isIdentifier n = true)
    (hr : ∀ c ∈ r.head?, isNameChar c = false) : nameAt? (n ++ r) = some (n, r) := by
  obtain ⟨c, cs, rfl, hc, hcs⟩ := isIdentifier_iff.1 h
  exact nameAt?_append hc (fun d hd => isNameChar_of_isIdentChar (hcs d hd)) hr

end Source

namespace Naming

/-- A bare name is an identifier, or one with a line feed behind it. -/
theorem isBareName_iff {n : Text} :
    isBareName n = true ↔ isIdentifier n = true ∨ ∃ line, n = line ++ ['\n'] ∧ isIdentifier line = true := by
  rw [isBareName, Bool.or_eq_true]
  refine or_congr_right ?_
  cases h : beforeEnd? ['\n'] n with
  | none =>
    have hno (line : Text) : n ≠ line ++ ['\n'] := fun he => by
      simp [beforeEnd?_eq_some_iff.2 he] at h
    simp [hno]
  | some line =>
    have hn := beforeEnd?_eq_some_iff.1 h
    simp [hn]

theorem isIdentifier_of_isBareName {n : Text} (h : isBareName n = true) (hl : '\n' ∉ n) :
    isIdentifier n = true := by
  rcases isBareName_iff.1 h with h | ⟨line, rfl, -⟩
  · exact h
  · exact absurd (by simp) hl

private theorem isIdentChar_of_mem_underscoreRuns {n : Text} :
    ∀ c ∈ underscoreRuns n, isIdentChar c = true := by
  have key : ∀ inRun, ∀ c ∈ underscoreRuns.go inRun n, isIdentChar c = true := by
    induction n with
    | nil => simp [underscoreRuns.go]
    | cons d n ih =>
      intro inRun
      simp only [underscoreRuns.go]
      split
      · next hd =>
        intro c hc
        rcases List.mem_cons.1 hc with rfl | hc
        · exact hd
        · exact ih false c hc
      · split
        · exact ih true
        · intro c hc
          rcases List.mem_cons.1 hc with rfl | hc
          · decide
          · exact ih true c hc
  exact key false

/-- The identifier of a parameter keeps of other characters only a line feed, at the end of a bare name. -/
theorem mem_paramIdentifier {n : Text} {c : Char} (hc : c ∈ paramIdentifier n) :
    isIdentChar c = true ∨ c = '\n' ∧ c ∈ n := by
  simp only [paramIdentifier] at hc
  split at hc
  · next h =>
    rcases isBareName_iff.1 h with hname | ⟨line, rfl, hline⟩
    · exact .inl (isIdentChar_of_mem hname c hc)
    · rcases List.mem_append.1 hc with hl | hl
      · exact .inl (isIdentChar_of_mem hline c hl)
      · exact .inr ⟨List.mem_singleton.1 hl, hc⟩
  · split at hc
    · exact .inl (isIdentChar_of_mem_underscoreRuns c hc)
    · rcases List.mem_cons.1 hc with rfl | hc
      · exact .inl (by decide)
      · exact .inl (isIdentChar_of_mem_underscoreRuns c hc)

theorem isIdentChar_of_mem_paramIdentifier {n : Text} (hl : '\n' ∉ n) :
    ∀ c ∈ paramIdentifier n, isIdentChar c = true := by
  intro c hc
  refine (mem_paramIdentifier hc).resolve_right ?_
  rintro ⟨rfl, hn⟩
  exact hl hn

theorem paramIdentifier_of_isBareName {n : Text} (h : isBareName n = true) : paramIdentifier n = n := if_pos h

theorem isIdentifier_paramIdentifier {n : Text} (h : ¬isBareName n = true) :
    isIdentifier (paramIdentifier n) = true := by
  rw [paramIdentifier, if_neg h]
  dsimp only
  split
  · next hbare =>
    refine isIdentifier_of_isBareName hbare fun hl => ?_
    exact absurd (isIdentChar_of_mem_underscoreRuns _ hl) (by decide)
  · exact isIdentifier_iff.2 ⟨'_', _, rfl, rfl, isIdentChar_of_mem_underscoreRuns⟩

theorem paramIdentifier_paramIdentifier (n : Text) : paramIdentifier (paramIdentifier n) = paramIdentifier n := by
  by_cases h : isBareName n = true
  · rw [paramIdentifier_of_isBareName h, paramIdentifier_of_isBareName h]
  · exact paramIdentifier_of_isBareName (isBareName_iff.2 (.inl (isIdentifier_paramIdentifier h)))

theorem isIdentifier_of_mem_httpMethods : ∀ m ∈ httpMethods, isIdentifier m = true := by
  decide

private theorem callName_begins {method : Text} (path : Text) (h : lower method ∈ httpMethods) :
    ∃ c cs, callName method path = c :: cs ∧ isLetter c = true ∧ ∀ d ∈ cs, isIdentChar d = true := by
  have hletter : ∀ m ∈ httpMethods, m.head?.all isLetter = true := by decide
  have hident := isIdentChar_of_mem (isIdentifier_of_mem_httpMethods _ h)
  have hall : (lower method).filter isIdentChar = lower method := List.filter_eq_self.2 hident
  obtain ⟨c, cs, hm⟩ := List.exists_cons_of_ne_nil
    (ne_nil_of_isIdentifier (isIdentifier_of_mem_httpMethods _ h))
  have hc : isLetter c = true := by simpa [hm] using hletter _ h
  rw [callName, List.filter_append, hall, hm, List.cons_append]
  refine ⟨c, _, rfl, hc, ?_⟩
  intro d hd
  rcases List.mem_append.1 hd with hd | hd
  · exact hident d (hm ▸ List.mem_cons_of_mem c hd)
  · exact (List.mem_filter.1 hd).2

theorem isIdentifier_callName {method path : Text} (h : lower method ∈ httpMethods) :
    isIdentifier (callName method path) = true := by
  obtain ⟨c, cs, hname, hc, hcs⟩ := callName_begins path h
  rw [hname, isIdentifier_iff]
  exact ⟨c, cs, rfl, by simp [isIdentStart, hc], hcs⟩

/-! ## Case -/

theorem lt_of_isIdentChar {c : Char} (h : isIdentChar c = true) : c.toNat < 128 := by
  rcases toNat_of_isIdentChar h with rfl | rfl | h
  · decide
  · decide
  · omega

private theorem upperChar_of_isIdentChar {c : Char} (h : isIdentChar c = true) :
    upperChar c = [c.toUpper] ∧ isIdentChar c.toUpper = true := by
  have hlt := lt_of_isIdentChar h
  have hupper : ∀ c : Char, c.toNat < 128 → isIdentChar c = true → isIdentChar c.toUpper = true :=
    forall_toNat_lt (by decide)
  exact ⟨if_pos hlt, hupper c hlt h⟩

private theorem isIdentChar_of_isLetter {c : Char} (h : isLetter c = true) : isIdentChar c = true := by
  simp [isIdentChar, isIdentStart, h]

private theorem lower_go_cons {c : Char} (h : isIdentChar c = true) (before t : Text) :
    lower.go before (c :: t) = c.toLower :: lower.go (c :: before) t := by
  have hlt := lt_of_isIdentChar h
  have hsigma : c ≠ 'Σ' := by
    rintro rfl
    exact absurd hlt (by decide)
  simp [lower.go, lowerChar, hsigma, hlt]

private theorem isLetter_toLower {c : Char} (h : isLetter c = true) : isLetter c.toLower = true := by
  have hlower : ∀ c : Char, c.toNat < 128 → isLetter c = true → isLetter c.toLower = true :=
    forall_toNat_lt (by decide)
  exact hlower c (lt_of_isIdentChar (isIdentChar_of_isLetter h)) h

private theorem lower_of_isLetter {c : Char} (h : isLetter c = true) :
    lower [c] = [c.toLower] ∧ isLetter c.toLower = true :=
  ⟨lower_go_cons (isIdentChar_of_isLetter h) [] [], isLetter_toLower h⟩

theorem isLetter_of_mem_lower {t : Text} (h : ∀ c ∈ t, isLetter c = true) : ∀ c ∈ lower t, isLetter c = true := by
  have key (before : Text) : ∀ c ∈ lower.go before t, isLetter c = true := by
    induction t generalizing before with
    | nil => simp [lower.go]
    | cons c t ih =>
      have hc := h c List.mem_cons_self
      rw [lower_go_cons (isIdentChar_of_isLetter hc)]
      intro d hd
      rcases List.mem_cons.1 hd with rfl | hd
      · exact isLetter_toLower hc
      · exact ih (fun x hx => h x (List.mem_cons_of_mem c hx)) _ d hd
  exact key []

private theorem isIdentChar_of_mem_raiseAfterSeparators {n : Text} (h : ∀ c ∈ n, isIdentChar c = true) :
    ∀ c ∈ raiseAfterSeparators n, isIdentChar c = true := by
  fun_induction raiseAfterSeparators n with
  | case1 => exact h
  | case2 c => exact h
  | case3 c d cs _ ih =>
    intro x hx
    obtain ⟨hup, hident⟩ := upperChar_of_isIdentChar (h d (by simp))
    rcases List.mem_append.1 hx with hx | hx
    · rw [hup, List.mem_singleton] at hx
      exact hx ▸ hident
    · exact ih (fun y hy => h y (by simp [hy])) x hx
  | case4 c d cs _ ih =>
    intro x hx
    rcases List.mem_cons.1 hx with rfl | hx
    · exact h x List.mem_cons_self
    · exact ih (fun y hy => h y (List.mem_cons_of_mem _ hy)) x hx

/-- What is made of characters of identifiers is so in Pascal case. -/
theorem isIdentChar_of_mem_pascalCase {n : Text} (h : ∀ c ∈ n, isIdentChar c = true) :
    ∀ c ∈ pascalCase n, isIdentChar c = true := by
  have hlower : ∀ c : Char, c.toNat < 128 → isIdentChar c = true → isIdentChar c.toLower = true :=
    forall_toNat_lt (by decide)
  have hraised := isIdentChar_of_mem_raiseAfterSeparators h
  rw [pascalCase, camelCase]
  cases hr : raiseAfterSeparators n with
  | nil => simp [decapitalize, capitalize]
  | cons c cs =>
    have hc : isIdentChar c = true := hraised c (hr ▸ List.mem_cons_self)
    have hlow := hlower c (lt_of_isIdentChar hc) hc
    have hone : lower [c] = [c.toLower] := lower_go_cons hc [] []
    obtain ⟨hup, hident⟩ := upperChar_of_isIdentChar hlow
    rw [decapitalize, hone, List.singleton_append, capitalize, hup, List.singleton_append]
    intro d hd
    rcases List.mem_cons.1 hd with rfl | hd
    · exact hident
    · exact hraised d (hr ▸ List.mem_cons_of_mem c hd)

theorem raiseAfterSeparators_cons {c : Char} (h : c ≠ '-' ∧ c ≠ '_') (cs : Text) :
    raiseAfterSeparators (c :: cs) = c :: raiseAfterSeparators cs := by
  cases cs with
  | nil => rfl
  | cons d cs => simp [raiseAfterSeparators, h.1, h.2]

theorem ne_separator_of_isLetter {c : Char} (h : isLetter c = true) : c ≠ '-' ∧ c ≠ '_' := by
  constructor
  · rintro rfl
    exact absurd h (by decide)
  · rintro rfl
    exact absurd h (by decide)

/-- The Pascal case of a name that begins with a letter raises that letter. -/
theorem pascalCase_cons {c : Char} (h : isLetter c = true) (cs : Text) :
    pascalCase (c :: cs) = c.toLower.toUpper :: raiseAfterSeparators cs := by
  obtain ⟨hlow, hletter⟩ := lower_of_isLetter h
  have hident : isIdentChar c.toLower = true := by simp [isIdentChar, isIdentStart, hletter]
  obtain ⟨hup, -⟩ := upperChar_of_isIdentChar hident
  simp only [pascalCase, camelCase, raiseAfterSeparators_cons (ne_separator_of_isLetter h), decapitalize, hlow,
    List.singleton_append, capitalize, hup]

theorem isIdentifier_pascalCase {c : Char} {cs : Text} (hc : isLetter c = true)
    (hcs : ∀ d ∈ cs, isIdentChar d = true) : isIdentifier (pascalCase (c :: cs)) = true := by
  have hletter := (lower_of_isLetter hc).2
  have hident : isIdentChar c.toLower = true := by simp [isIdentChar, isIdentStart, hletter]
  have hupper : ∀ c : Char, c.toNat < 128 → isLetter c = true → isIdentStart c.toUpper = true :=
    forall_toNat_lt (by decide)
  have hstart := hupper _ (lt_of_isIdentChar hident) hletter
  rw [pascalCase_cons hc, isIdentifier_iff]
  exact ⟨_, _, rfl, hstart, isIdentChar_of_mem_raiseAfterSeparators hcs⟩

theorem isIdentifier_paramsTypeName {method path : Text} (h : lower method ∈ httpMethods) :
    isIdentifier (paramsTypeName (callName method path)) = true := by
  have hparams : ∀ c ∈ "Params".toList, isIdentChar c = true := by decide
  obtain ⟨c, cs, hname, hc, hcs⟩ := callName_begins path h
  obtain ⟨d, ds, hcase, hd, hds⟩ := isIdentifier_iff.1 (isIdentifier_pascalCase hc hcs)
  rw [paramsTypeName, hname, hcase, List.cons_append, isIdentifier_iff]
  refine ⟨d, _, rfl, hd, fun x hx => ?_⟩
  rcases List.mem_append.1 hx with hx | hx
  · exact hds x hx
  · exact hparams x hx

end Naming

end ClientGen
