import ClientGen.Proofs.Document.Display
import ClientGen.Proofs.Text.Pieces
/-!
# Displayed values without carriage returns

Texts inside brackets are quoted, and nothing else that is displayed there may hold a carriage return.
-/

namespace ClientGen

open Text Source

theorem IsScalarWord.notMem_return {t : Text} (h : IsScalarWord t) : '\r' ∉ t :=
  fun hc => absurd (h.chars _ hc) (by decide)

private theorem notMem_escapeChar {q : Char} (hq : q ≠ '\r') (c : Char) : '\r' ∉ escapeChar q c := by
  have hhex {t : Text} (ht : '\r' ∉ t) (width : Nat) : '\r' ∉ t ++ padded 16 width c.toNat := by
    rw [List.mem_append, not_or]
    exact ⟨ht, fun hc => absurd (isIdentChar_of_mem_padded_hex hc) (by decide)⟩
  unfold escapeChar
  split
  · next h =>
    have hc : c ≠ '\r' := by
      rintro rfl
      simp only [Bool.or_eq_true, decide_eq_true_eq] at h
      rcases h with rfl | h
      · exact hq rfl
      · exact absurd h (by decide)
    simpa using Ne.symm hc
  split
  · decide
  split
  · decide
  split
  · decide
  split
  · next h _ _ => simpa using Ne.symm h
  split
  · exact hhex (by decide) 2
  split
  · exact hhex (by decide) 4
  · exact hhex (by decide) 8

private theorem notMem_between {α : Type} {q : Char} (hq : q ≠ '\r') {f : α → Text} (hf : ∀ a, '\r' ∉ f a)
    (as : List α) : '\r' ∉ q :: as.flatMap f ++ [q] := by
  simp [hq.symm, hf]

private theorem quote_ne_return (b : Bool) : (if b then '"' else '\'') ≠ '\r' := by
  cases b <;> decide

private theorem notMem_quoted (t : Text) : '\r' ∉ quoted t :=
  notMem_between (quote_ne_return _) (notMem_escapeChar (quote_ne_return _)) t

private theorem notMem_applied {name : Text} {ts : List Text} (hn : '\r' ∉ name) (h : ∀ t ∈ ts, '\r' ∉ t) :
    '\r' ∉ applied name ts := by
  have hjoin : '\r' ∉ join ", " ts := notMem_join (by decide) h
  simp only [applied, List.mem_append, not_or]
  exact ⟨⟨⟨hn, by decide⟩, hjoin⟩, by decide⟩

namespace Moment

private theorem notMem_zoneInside (ahead : Int) : '\r' ∉ zoneInside ahead := by
  have hseconds (n : Int) : '\r' ∉ "seconds=" ++ Text.ofInt n := by
    rw [List.mem_append, not_or]
    exact ⟨by decide, (IsScalarWord.ofInt n).notMem_return⟩
  have hdelta {ts : List Text} (h : ∀ t ∈ ts, '\r' ∉ t) :
      '\r' ∉ applied "datetime.timezone" [applied "datetime.timedelta" ts] :=
    notMem_applied (by decide) (by simpa using notMem_applied (by decide) h)
  unfold zoneInside
  split
  · decide
  dsimp only
  split
  · refine hdelta fun t ht => ?_
    rcases List.mem_cons.1 ht with rfl | ht
    · decide
    split at ht
    · cases ht
    · exact List.mem_singleton.1 ht ▸ hseconds _
  · exact hdelta (by simpa using hseconds _)

private theorem notMem_inside (m : Moment) : '\r' ∉ m.inside := by
  unfold inside
  refine notMem_applied (by decide) fun t ht => ?_
  rcases List.mem_append.1 ht with ht | ht
  · obtain ⟨n, -, rfl⟩ := List.mem_map.1 ht
    exact (IsScalarWord.ofNat n).notMem_return
  cases ha : m.ahead with
  | none =>
    rw [ha] at ht
    cases ht
  | some a =>
    rw [ha] at ht
    have hzone := notMem_zoneInside a
    rw [List.mem_singleton.1 ht, List.mem_append, not_or]
    exact ⟨by decide, hzone⟩

end Moment

namespace Scalar

private theorem notMem_byteInside {q : Char} (hq : q ≠ '\r') (b : UInt8) : '\r' ∉ byteInside q b := by
  unfold byteInside
  split
  · exact notMem_escapeChar hq _
  · rw [List.mem_append, not_or]
    exact ⟨by decide, fun hc => absurd (isIdentChar_of_mem_padded_hex hc) (by decide)⟩

private theorem notMem_bytesInside (bs : List UInt8) : '\r' ∉ bytesInside bs := by
  unfold bytesInside
  rw [List.cons_append, List.mem_cons, not_or]
  exact ⟨by decide, notMem_between (quote_ne_return _) (notMem_byteInside (quote_ne_return _)) bs⟩

theorem notMem_toText {s : Scalar} (h : ∀ t, s ≠ .text t) : '\r' ∉ s.toText := by
  cases s with
  | null => decide
  | bool b => cases b <;> decide
  | int n => exact (IsScalarWord.ofInt n).notMem_return
  | float x => exact (IsScalarWord.float x).notMem_return
  | text t => exact absurd rfl (h t)
  | date d => exact (IsScalarWord.date d).notMem_return
  | moment m =>
    obtain ⟨clock, hm, hclock⟩ := m.toText_shape
    have hdate := (IsScalarWord.date m.date).notMem_return
    have hclock := hclock.notMem_return
    simp only [toText, hm, List.mem_append, List.mem_cons, not_or]
    exact ⟨hdate, by decide, hclock⟩
  | bytes bs => exact notMem_bytesInside bs

theorem notMem_inside (s : Scalar) : '\r' ∉ s.inside := by
  have hnumbers (ns : List Nat) : ∀ t ∈ ns.map Text.ofNat, '\r' ∉ t := by
    intro t ht
    obtain ⟨n, -, rfl⟩ := List.mem_map.1 ht
    exact (IsScalarWord.ofNat n).notMem_return
  cases s with
  | text t => exact notMem_quoted t
  | date d => exact notMem_applied (by decide) (hnumbers _)
  | moment m => exact m.notMem_inside
  | null => exact notMem_toText (s := .null) (by simp)
  | bool b => exact notMem_toText (s := .bool b) (by simp)
  | int n => exact notMem_toText (s := .int n) (by simp)
  | float x => exact notMem_toText (s := .float x) (by simp)
  | bytes bs => exact notMem_toText (s := .bytes bs) (by simp)

end Scalar

namespace Value

mutual

theorem notMem_inside : (v : Value) → '\r' ∉ v.inside
  | .scalar s => s.notMem_inside
  | .list vs => by
    have hjoin : '\r' ∉ join ", " (insideAll vs) := notMem_join (by decide) (notMem_insideAll vs)
    simpa [inside] using hjoin
  | .pair k v => by
    have hk := notMem_inside k
    have hv := notMem_inside v
    simp [inside, hk, hv]
  | .set ms => by
    have hjoin : '\r' ∉ join ", " (ms.map Scalar.inside) := by
      refine notMem_join (by decide) fun t ht => ?_
      obtain ⟨s, -, rfl⟩ := List.mem_map.1 ht
      exact s.notMem_inside
    unfold inside
    split
    · decide
    · simpa using hjoin
  | .object fs => by
    have hjoin : '\r' ∉ join ", " (insideFields fs) := notMem_join (by decide) (notMem_insideFields fs)
    simpa [inside] using hjoin
termination_by structural v => v

private theorem notMem_insideAll : (vs : List Value) → ∀ t ∈ insideAll vs, '\r' ∉ t
  | [], t, ht => by cases ht
  | v :: vs, t, ht => by
    rcases List.mem_cons.1 ht with rfl | ht
    · exact notMem_inside v
    · exact notMem_insideAll vs t ht
termination_by structural vs => vs

private theorem notMem_insideFields : (fs : List (Scalar × Value)) → ∀ t ∈ insideFields fs, '\r' ∉ t
  | [], t, ht => by cases ht
  | (k, v) :: fs, t, ht => by
    rcases List.mem_cons.1 ht with rfl | ht
    · have hk := k.notMem_inside
      have hv := notMem_inside v
      simp [hk, hv]
    · exact notMem_insideFields fs t ht
termination_by structural fs => fs

end

theorem notMem_toText {v : Value} (h : ∀ t, v ≠ .text t) : '\r' ∉ v.toText := by
  cases v with
  | scalar s => exact Scalar.notMem_toText fun t hs => h t (by rw [hs])
  | list vs => exact notMem_inside (.list vs)
  | pair k v => exact notMem_inside (.pair k v)
  | set ms => exact notMem_inside (.set ms)
  | object fs => exact notMem_inside (.object fs)

end Value

end ClientGen
