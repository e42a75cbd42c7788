import ClientGen.Json.Reader
import ClientGen.Json.Writer
import Mathlib.Data.List.Basic
/-!
# Strings in JSON

Every character of a string has a form that is read as the character, and none of the forms has a line end.
-/

namespace ClientGen.Json

open Text

private theorem string?_short {c d : Char} (hc : c ≠ 'u') (hd : shortEscape? c = some d) (fuel : Nat)
    (r : Text) : string? (fuel + 1) ('\\' :: c :: r) = (string? fuel r).map fun (s, r) => (d :: s, r) := by
  rw [string?]
  simp only [hc, if_false, hd, Option.bind_eq_bind, Option.bind_some]
  cases string? fuel r <;> rfl

private theorem string?_control {c : Char} (hc : c.toNat < 0x20) (fuel : Nat) (r : Text) :
    string? (fuel + 1) ("\\u" ++ padded 16 4 c.toNat ++ r) =
      (string? fuel r).map fun (s, r) => (c :: s, r) := by
  have hdigits : ∀ n < 0x20, (padded 16 4 n).length = 4 ∧ hexNumber? (padded 16 4 n) = some n := by decide
  obtain ⟨hlength, hnumber⟩ := hdigits _ hc
  obtain ⟨x, y, z, w, hp⟩ : ∃ x y z w, padded 16 4 c.toNat = [x, y, z, w] :=
    List.length_eq_four.1 hlength
  rw [hp] at hnumber ⊢
  have heq : "\\u" ++ [x, y, z, w] ++ r = '\\' :: 'u' :: x :: y :: z :: w :: r := by simp
  have hcode : unicodeEscape? ('\\' :: 'u' :: x :: y :: z :: w :: r) = some (c.toNat, r) := by
    rw [unicodeEscape?, hnumber]
    rfl
  have hjoin : joinSurrogates c.toNat r = (c, r) := by
    have hlow : ¬(0xD800 ≤ c.toNat ∧ c.toNat < 0xDC00) ∧ ¬(0xDC00 ≤ c.toNat ∧ c.toNat < 0xE000) := by
      omega
    simp [joinSurrogates, hlow, Char.ofNat_toNat]
  rw [heq, string?]
  simp only [if_true, hcode, Option.bind_eq_bind, Option.bind_some, hjoin]
  cases string? fuel r <;> rfl

private theorem string?_plain {c : Char} (hq : c ≠ '"') (hb : c ≠ '\\') (hc : ¬c.toNat < 0x20) (fuel : Nat)
    (r : Text) : string? (fuel + 1) (c :: r) = (string? fuel r).map fun (s, r) => (c :: s, r) := by
  rw [string?]
  · simp [hb, hc]
  · exact hq
  · intro d rest heq
    exact absurd heq hb

private theorem string?_writeChar (c : Char) (fuel : Nat) (r : Text) :
    string? (fuel + 1) (writeChar c ++ r) = (string? fuel r).map fun (s, r) => (c :: s, r) := by
  unfold writeChar
  split
  · next h => exact h ▸ string?_short (c := '"') (by decide) (by decide) fuel r
  split
  · next h => exact h ▸ string?_short (c := '\\') (by decide) (by decide) fuel r
  split
  · next h => exact h ▸ string?_short (c := 'n') (by decide) (by decide) fuel r
  split
  · next h => exact h ▸ string?_short (c := 'r') (by decide) (by decide) fuel r
  split
  · next h => exact h ▸ string?_short (c := 't') (by decide) (by decide) fuel r
  split
  · next h => exact h ▸ string?_short (c := 'b') (by decide) (by decide) fuel r
  split
  · next h => exact h ▸ string?_short (c := 'f') (by decide) (by decide) fuel r
  split
  · next h => exact string?_control h fuel r
  · next hq hb _ _ _ _ _ hc => exact string?_plain hq hb hc fuel r

theorem string?_writeString (t r : Text) {fuel : Nat} (h : t.length < fuel) :
    string? fuel (t.flatMap writeChar ++ '"' :: r) = some (t, r) := by
  induction t generalizing fuel with
  | nil =>
    cases fuel with
    | zero => cases h
    | succ fuel => rfl
  | cons c t ih =>
    cases fuel with
    | zero => cases h
    | succ fuel =>
      rw [List.length_cons] at h
      rw [List.flatMap_cons, List.append_assoc, string?_writeChar, ih (by omega)]
      rfl

private theorem writeChar_ne_nil (c : Char) : writeChar c ≠ [] := by
  unfold writeChar
  repeat' split
  all_goals simp

private theorem length_lt_behind (t r : Text) : t.length < (t.flatMap writeChar ++ '"' :: r).length + 1 := by
  induction t with
  | nil => simp
  | cons c t ih =>
    have hc := List.length_pos_iff.2 (writeChar_ne_nil c)
    simp only [List.flatMap_cons, List.length_cons, List.length_append] at ih ⊢
    omega

theorem string?_behind (t r : Text) :
    string? ((t.flatMap writeChar ++ '"' :: r).length + 1) (t.flatMap writeChar ++ '"' :: r) = some (t, r) :=
  string?_writeString t r (length_lt_behind t r)

theorem writeString_append (t r : Text) : writeString t ++ r = '"' :: (t.flatMap writeChar ++ '"' :: r) := by
  simp [writeString]

theorem value_writeString (t r : Text) (fuel : Nat) :
    value (fuel + 1) (writeString t ++ r) = .ok (.text t, r) := by
  rw [writeString_append, value]
  simp only [string?_behind]

private theorem notMem_writeChar (c : Char) : '\r' ∉ writeChar c := by
  unfold writeChar
  split
  · decide
  split
  · decide
  split
  · decide
  split
  · decide
  split
  · decide
  split
  · decide
  split
  · decide
  split
  · next h =>
    have hdigits : ∀ n < 0x20, '\r' ∉ "\\u" ++ padded 16 4 n := by decide
    exact hdigits _ h
  · next h _ _ _ _ => simpa using Ne.symm h

theorem notMem_writeString (t : Text) : '\r' ∉ writeString t := by
  simp [writeString, notMem_writeChar]

end ClientGen.Json
