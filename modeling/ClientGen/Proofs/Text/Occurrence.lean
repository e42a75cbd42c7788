import ClientGen.Text.Basic
import Mathlib.Data.List.Infix
/-!
# Occurrences

`cut?` stops at the first occurrence of a text. Whether an occurrence is the first one depends on what
stands before its last character alone, so texts can be exchanged behind it.
-/

namespace ClientGen.Text

/-- The characters of a text are looked at, and not all characters there are. -/
instance (priority := high) decidableForallMem {α : Type} (P : α → Prop) [DecidablePred P] (as : List α) :
    Decidable (∀ a ∈ as, P a) :=
  List.decidableBAll P as

theorem afterStart?_append (p r : Text) : afterStart? p (p ++ r) = some r :=
  afterStart?_eq_some_iff.2 rfl

theorem beforeEnd?_eq_some_iff {s t b : Text} : beforeEnd? s t = some b ↔ t = b ++ s := by
  rw [beforeEnd?, Option.map_eq_some_iff]
  constructor
  · rintro ⟨r, hr, rfl⟩
    have h := congrArg List.reverse (afterStart?_eq_some_iff.1 hr)
    simpa using h
  · rintro rfl
    exact ⟨b.reverse, afterStart?_eq_some_iff.2 (by simp), by simp⟩

theorem afterStart?_eq_none_iff {p t : Text} : afterStart? p t = none ↔ ¬p <+: t := by
  constructor
  · rintro h ⟨r, rfl⟩
    simp [afterStart?_append] at h
  · intro h
    cases hr : afterStart? p t with
    | none => rfl
    | some r => exact absurd ⟨r, (afterStart?_eq_some_iff.1 hr).symm⟩ h

theorem startsWith_iff {p t : Text} : startsWith p t = true ↔ p <+: t := by
  rw [startsWith, Option.isSome_iff_ne_none, ne_eq, afterStart?_eq_none_iff, not_not]

theorem cut?_eq_none_iff {p t : Text} : cut? p t = none ↔ ¬p <:+: t := by
  induction t with
  | nil => by_cases hp : p = [] <;> simp [cut?, hp]
  | cons c t ih =>
    rw [List.infix_cons_iff, not_or, ← ih, ← afterStart?_eq_none_iff, cut?]
    cases afterStart? p (c :: t) <;> simp

private theorem prefix_iff_of_full {p b r : Text} (h : p.length ≤ b.length) :
    p <+: b ++ r ↔ p <+: b :=
  ⟨fun hp => List.prefix_of_prefix_length_le hp (List.prefix_append b r) h,
    fun hp => hp.trans (List.prefix_append b r)⟩

/-- An occurrence is the first one if there is none in the text up to its last character. -/
theorem cut?_append_iff {p b r : Text} (hp : p ≠ []) :
    cut? p (b ++ p ++ r) = some (b, r) ↔ ¬p <:+: b ++ p.dropLast := by
  have hpos := List.length_pos_iff.2 hp
  induction b with
  | nil =>
    have hshort : ¬p <:+: p.dropLast := fun h => by
      have := h.length_le
      simp only [List.length_dropLast] at this
      omega
    obtain ⟨c, p', rfl⟩ := List.exists_cons_of_ne_nil hp
    have hstart := afterStart?_append (c :: p') r
    simp only [List.nil_append, List.cons_append] at hstart ⊢
    simpa [cut?, hstart] using hshort
  | cons c b ih =>
    have hlast : p = p.dropLast ++ [p.getLast hp] := (List.dropLast_append_getLast hp).symm
    have hwhole : c :: (b ++ p ++ r) = (c :: b ++ p.dropLast) ++ (p.getLast hp :: r) := by
      conv_lhs => rw [hlast]
      simp
    have hlen : p.length ≤ (c :: b ++ p.dropLast).length := by
      simp only [List.length_append, List.length_cons, List.length_dropLast]
      omega
    have hstart : p <+: c :: (b ++ p ++ r) ↔ p <+: c :: (b ++ p.dropLast) := by
      rw [hwhole, prefix_iff_of_full hlen, List.cons_append]
    have hrest : ¬p <:+: b ++ p.dropLast ↔ cut? p (b ++ p ++ r) = some (b, r) := Iff.symm ih
    rw [List.cons_append, List.cons_append, List.cons_append, List.infix_cons_iff, not_or, hrest,
      ← hstart, cut?]
    cases ha : afterStart? p (c :: (b ++ p ++ r)) with
    | some rest =>
      have : p <+: c :: (b ++ (p ++ r)) :=
        ⟨rest, by simpa using (afterStart?_eq_some_iff.1 ha).symm⟩
      simp [this]
    | none =>
      have : ¬p <+: c :: (b ++ (p ++ r)) := by simpa using afterStart?_eq_none_iff.1 ha
      simp [this, Prod.ext_iff]

theorem cut?_eq_some_iff {p t b r : Text} (hp : p ≠ []) :
    cut? p t = some (b, r) ↔ t = b ++ p ++ r ∧ ¬p <:+: b ++ p.dropLast := by
  constructor
  · intro h
    have ht := cut?_eq_some h
    exact ⟨ht, (cut?_append_iff hp).1 (ht ▸ h)⟩
  · rintro ⟨rfl, h⟩
    exact (cut?_append_iff hp).2 h

/-- An occurrence reaches beyond a middle part on both sides only if it is longer than that part. -/
theorem infix_or_infix_of_middle {p a m b : Text} (h : p <:+: a ++ m ++ b)
    (hlen : p.length ≤ m.length + 1) : p <:+: a ++ m ∨ p <:+: m ++ b := by
  obtain ⟨u, v, huv⟩ := h
  have hsize := congrArg List.length huv
  simp only [List.length_append] at hsize
  by_cases hu : u.length + p.length ≤ a.length + m.length
  · left
    have hpre : u ++ p <+: a ++ m := by
      refine List.prefix_of_prefix_length_le ⟨v, huv⟩ (List.prefix_append _ b) ?_
      simpa only [List.length_append] using hu
    exact (List.suffix_append u p).isInfix.trans hpre.isInfix
  · right
    have hsuf : p ++ v <:+ m ++ b := by
      refine List.suffix_of_suffix_length_le ⟨u, by simpa using huv⟩
        ⟨a, by simp⟩ ?_
      simp only [List.length_append]
      omega
    exact (List.prefix_append p v).isInfix.trans hsuf.isInfix

/-- No occurrence reaches over a character that is not in the text looked for. -/
theorem infix_append_cons_iff {p a b : Text} {c : Char} (hc : c ∉ p) :
    p <:+: a ++ c :: b ↔ p <:+: a ∨ p <:+: b := by
  constructor
  · rintro ⟨u, v, huv⟩
    have h := huv
    rw [List.append_assoc, List.append_eq_append_iff] at h
    rcases h with ⟨w, rfl, hw⟩ | ⟨w, rfl, hw⟩
    · rw [List.append_eq_append_iff] at hw
      rcases hw with ⟨x, rfl, -⟩ | ⟨x, rfl, hx⟩
      · exact .inl ⟨u, x, by simp⟩
      · cases x with
        | nil => exact .inl ⟨u, [], by simp⟩
        | cons d x =>
          obtain ⟨rfl, -⟩ := List.cons_eq_cons.1 hx
          exact absurd (by simp) hc
    · cases w with
      | nil =>
        cases p with
        | nil => exact .inl ⟨a, [], by simp⟩
        | cons d p =>
          obtain ⟨rfl, -⟩ := List.cons_eq_cons.1 hw
          exact absurd (by simp) hc
      | cons d w =>
        obtain ⟨-, rfl⟩ := List.cons_eq_cons.1 hw
        exact .inr ⟨w, v, by simp⟩
  · rintro (h | h)
    · exact h.trans (List.prefix_append a _).isInfix
    · exact h.trans ((List.suffix_cons c b).trans (List.suffix_append a _)).isInfix

/-- The first occurrence before a character that is not in the text looked for stays the first one. -/
theorem cut?_append_cons_of_some {p a b u r : Text} {c : Char} (hp : p ≠ []) (h : cut? p a = some (u, r)) :
    cut? p (a ++ c :: b) = some (u, r ++ c :: b) := by
  rw [cut?_eq_some_iff hp] at h ⊢
  obtain ⟨rfl, hfirst⟩ := h
  exact ⟨by simp, hfirst⟩

/-- Without an occurrence before such a character, the first one comes behind it. -/
theorem cut?_append_cons_of_none {p a b : Text} {c : Char} (hp : p ≠ []) (hc : c ∉ p) (h : cut? p a = none) :
    cut? p (a ++ c :: b) = (cut? p b).map fun e => (a ++ c :: e.1, e.2) := by
  have ha := cut?_eq_none_iff.1 h
  cases hb : cut? p b with
  | none =>
    rw [Option.map_none, cut?_eq_none_iff, infix_append_cons_iff hc, not_or]
    exact ⟨ha, cut?_eq_none_iff.1 hb⟩
  | some e =>
    obtain ⟨u, r⟩ := e
    obtain ⟨rfl, hfirst⟩ := (cut?_eq_some_iff hp).1 hb
    have hbefore : a ++ c :: u ++ p.dropLast = a ++ c :: (u ++ p.dropLast) := by simp
    rw [Option.map_some, cut?_eq_some_iff hp, hbefore, infix_append_cons_iff hc, not_or]
    exact ⟨by simp, ha, hfirst⟩

end ClientGen.Text
