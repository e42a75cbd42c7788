import ClientGen.Text.Table
import Mathlib.Data.List.Induction
import Mathlib.Data.List.Nodup
/-!
# Tables of entries

The keys of a table of entries are the keys of the entries in order of their first occurrence. A table
of entries with distinct keys is the list of these entries.
-/

namespace ClientGen

variable {α β : Type}

/-! ## First occurrences -/

@[simp] theorem mem_firstOccurrences [DecidableEq α] {a : α} {as : List α} :
    a ∈ firstOccurrences as ↔ a ∈ as := by
  induction as with
  | nil => simp [firstOccurrences]
  | cons b as ih =>
    simp only [firstOccurrences, List.mem_cons, List.mem_filter, ih, decide_eq_true_eq]
    by_cases h : a = b <;> simp [h]

theorem firstOccurrences_append_singleton [DecidableEq α] (as : List α) (a : α) :
    firstOccurrences (as ++ [a]) = if a ∈ as then firstOccurrences as else firstOccurrences as ++ [a] := by
  induction as with
  | nil => simp [firstOccurrences]
  | cons b as ih =>
    rw [List.cons_append, firstOccurrences, ih]
    by_cases hab : a = b
    · subst hab
      by_cases ha : a ∈ as <;> simp [firstOccurrences, ha]
    · by_cases ha : a ∈ as <;> simp [firstOccurrences, ha, hab]

theorem nodup_firstOccurrences [DecidableEq α] (as : List α) : (firstOccurrences as).Nodup := by
  induction as with
  | nil => exact List.nodup_nil
  | cons a as ih =>
    refine List.nodup_cons.2 ⟨?_, ih.filter _⟩
    simp [List.mem_filter]

theorem firstOccurrences_of_nodup [DecidableEq α] {as : List α} (h : as.Nodup) : firstOccurrences as = as := by
  induction as with
  | nil => rfl
  | cons a as ih =>
    obtain ⟨ha, h⟩ := List.nodup_cons.1 h
    rw [firstOccurrences, ih h, List.filter_eq_self.2]
    intro b hb
    simpa using ne_of_mem_of_not_mem hb ha

namespace Table

/-! ## Keys -/

@[simp] theorem mem_keys_put {key k : Text} {value : α} {t : Table α} :
    k ∈ keys (put key value t) ↔ k = key ∨ k ∈ keys t := by
  rw [keys_put]
  split
  · next h =>
    constructor
    · exact .inr
    · rintro (rfl | hk)
      · exact h
      · exact hk
  · rw [List.mem_append, List.mem_singleton, or_comm]

theorem has_iff {key : Text} {t : Table α} : has key t = true ↔ key ∈ keys t := by
  induction t with
  | nil => simp [has, get?, keys]
  | cons e t ih =>
    obtain ⟨k, v⟩ := e
    simp only [has, keys, get?, List.map_cons, List.mem_cons] at ih ⊢
    by_cases h : k = key
    · simp [h]
    · simpa [h, Ne.symm h] using ih

/-- The table with entries put one after the other. -/
def putAll (entries : List (Text × α)) (t : Table α) : Table α :=
  entries.foldl (fun t (k, v) => put k v t) t

theorem ofEntries_eq_putAll (entries : List (Text × α)) : ofEntries entries = putAll entries [] := rfl

theorem keys_putAll (entries : List (Text × α)) (t : Table α) :
    keys (putAll entries t) =
      keys t ++ (firstOccurrences (entries.map Prod.fst)).filter (· ∉ keys t) := by
  induction entries generalizing t with
  | nil => simp [putAll, firstOccurrences]
  | cons e entries ih =>
    obtain ⟨k, v⟩ := e
    have hstep : putAll ((k, v) :: entries) t = putAll entries (put k v t) := rfl
    rw [hstep, ih, List.map_cons, firstOccurrences, keys_put]
    by_cases hk : k ∈ keys t
    · simp only [hk, if_true, not_true_eq_false, decide_false, Bool.false_eq_true, not_false_eq_true,
        List.filter_cons_of_neg, List.filter_filter]
      congr 1
      refine List.filter_congr fun a _ => ?_
      by_cases ha : a = k <;> simp [ha, hk]
    · simp only [hk, if_false, not_false_eq_true, decide_true, List.filter_cons_of_pos,
        List.filter_filter, List.append_assoc, List.singleton_append]
      congr 2
      refine List.filter_congr fun a _ => ?_
      by_cases ha : a = k <;> simp [ha, hk]

theorem keys_ofEntries (entries : List (Text × α)) :
    keys (ofEntries entries) = firstOccurrences (entries.map Prod.fst) := by
  rw [ofEntries_eq_putAll, keys_putAll]
  simp [keys]

/-! ## Entries -/

theorem mem_of_mem_put {key : Text} {value : α} {t : Table α} {e : Text × α} (h : e ∈ put key value t) :
    e = (key, value) ∨ e ∈ t := by
  induction t with
  | nil => exact .inl (List.mem_singleton.1 h)
  | cons d t ih =>
    obtain ⟨k, v⟩ := d
    rw [put] at h
    split at h
    · next hk =>
      rcases List.mem_cons.1 h with rfl | h
      · exact .inl (hk ▸ rfl)
      · exact .inr (List.mem_cons_of_mem _ h)
    · rcases List.mem_cons.1 h with rfl | h
      · exact .inr List.mem_cons_self
      · rcases ih h with h | h
        · exact .inl h
        · exact .inr (List.mem_cons_of_mem _ h)

theorem mem_of_mem_putAll {entries : List (Text × α)} {t : Table α} {e : Text × α}
    (h : e ∈ putAll entries t) : e ∈ entries ∨ e ∈ t := by
  induction entries generalizing t with
  | nil => exact .inr h
  | cons d entries ih =>
    rcases ih (t := put d.1 d.2 t) h with h | h
    · exact .inl (List.mem_cons_of_mem _ h)
    · rcases mem_of_mem_put h with rfl | h
      · exact .inl List.mem_cons_self
      · exact .inr h

theorem mem_of_get? {key : Text} {v : α} {t : Table α} (h : get? key t = some v) : (key, v) ∈ t := by
  induction t with
  | nil => cases h
  | cons e t ih =>
    obtain ⟨k, w⟩ := e
    rw [get?] at h
    split at h
    · next hk =>
      cases h
      exact hk ▸ List.mem_cons_self
    · exact List.mem_cons_of_mem _ (ih h)

theorem get?_ofEntries (key : Text) (entries : List (Text × α)) :
    get? key (ofEntries entries) = (entries.filter (·.1 = key)).getLast?.map Prod.snd := by
  induction entries using List.reverseRecOn with
  | nil => rfl
  | append_singleton entries e ih =>
    have hstep : ofEntries (entries ++ [e]) = put e.1 e.2 (ofEntries entries) := by
      rw [ofEntries, List.foldl_append]
      rfl
    rw [hstep, List.filter_append]
    by_cases hk : e.1 = key
    · subst hk
      simp
    · simp [get?_put_of_ne (Ne.symm hk), hk, ih]

/-! ## Distinct keys -/

theorem get?_of_mem {key : Text} {v : α} {t : Table α} (hn : (keys t).Nodup) (h : (key, v) ∈ t) :
    get? key t = some v := by
  induction t with
  | nil => cases h
  | cons e t ih =>
    obtain ⟨k, w⟩ := e
    obtain ⟨hk, hn⟩ := List.nodup_cons.1 hn
    rcases List.mem_cons.1 h with heq | h
    · cases heq
      exact if_pos rfl
    · have hkey : key ∈ t.map Prod.fst := List.mem_map.2 ⟨_, h, rfl⟩
      have hne : k ≠ key := by
        rintro rfl
        exact hk hkey
      rw [get?, if_neg hne, ih hn h]

theorem get?_filter (p : Text → Bool) (key : Text) (t : Table α) :
    get? key (t.filter fun e => p e.1) = if p key then get? key t else none := by
  induction t with
  | nil => simp [get?]
  | cons e t ih =>
    obtain ⟨k, v⟩ := e
    by_cases hk : k = key
    · subst hk
      by_cases hp : p k = true <;> simp [hp, get?, ih]
    · by_cases hp : p k = true <;> simp [hp, get?, hk, ih]

theorem nodup_keys_putAll {entries : List (Text × α)} {t : Table α} (h : (keys t).Nodup) :
    (keys (putAll entries t)).Nodup := by
  induction entries generalizing t with
  | nil => exact h
  | cons d entries ih => exact ih (t := put d.1 d.2 t) (nodup_keys_put d.1 d.2 h)

theorem nodup_keys_ofEntries (entries : List (Text × α)) : (keys (ofEntries entries)).Nodup :=
  nodup_keys_putAll List.nodup_nil

theorem put_of_notMem {key : Text} {t : Table α} (h : key ∉ keys t) (value : α) :
    put key value t = t ++ [(key, value)] := by
  induction t with
  | nil => rfl
  | cons e t ih =>
    obtain ⟨k, v⟩ := e
    simp only [keys, List.map_cons, List.mem_cons, not_or] at h
    simp [put, Ne.symm h.1, ih h.2]

theorem putAll_of_nodup {entries : List (Text × α)} {t : Table α}
    (h : (keys t ++ entries.map Prod.fst).Nodup) : putAll entries t = t ++ entries := by
  induction entries generalizing t with
  | nil => simp [putAll]
  | cons e entries ih =>
    obtain ⟨k, v⟩ := e
    have hk : k ∉ keys t := by
      intro hk
      have hne := (List.nodup_append.1 h).2.2 k hk k (by simp)
      exact hne rfl
    have hstep : putAll ((k, v) :: entries) t = putAll entries (put k v t) := rfl
    rw [hstep, put_of_notMem hk, ih, List.append_assoc, List.singleton_append]
    simpa [keys] using h

theorem ofEntries_of_nodup {entries : List (Text × α)} (h : (entries.map Prod.fst).Nodup) :
    ofEntries entries = entries := by
  rw [ofEntries_eq_putAll, putAll_of_nodup (by simpa [keys] using h), List.nil_append]

/-! ## Groups -/

section Groups

variable {keys : List Text} {F : Text → α} {key : Text}

private theorem get?_map_keys : get? key (keys.map fun k => (k, F k)) = if key ∈ keys then some (F key) else none := by
  induction keys with
  | nil => rfl
  | cons k keys ih =>
    rw [List.map_cons, get?, ih]
    by_cases hk : k = key
    · simp [hk]
    · simp [hk, Ne.symm hk]

private theorem put_map_keys (hn : keys.Nodup) (hk : key ∈ keys) (value : α) :
    put key value (keys.map fun k => (k, F k)) = keys.map fun k => (k, if k = key then value else F k) := by
  induction keys with
  | nil => cases hk
  | cons k keys ih =>
    obtain ⟨hnot, hn⟩ := List.nodup_cons.1 hn
    rw [List.map_cons, put, List.map_cons]
    by_cases heq : k = key
    · subst heq
      have hrest : keys.map (fun l => (l, F l)) = keys.map fun l => (l, if l = k then value else F l) := by
        refine List.map_congr_left fun l hl => ?_
        rw [if_neg (ne_of_mem_of_not_mem hl hnot)]
      rw [if_pos rfl, if_pos rfl, hrest]
    · rw [if_neg heq, if_neg heq, ih hn ((List.mem_cons.1 hk).resolve_left (Ne.symm heq))]

/-- The groups stand in the order in which their keys are first used, and each lists its values in order. -/
theorem groupBy_eq (f : α → Text) (values : List α) :
    groupBy f values = (firstOccurrences (values.map f)).map fun k => (k, values.filter fun v => f v = k) := by
  induction values using List.reverseRecOn with
  | nil => rfl
  | append_singleton values v ih =>
    have hstep : groupBy f (values ++ [v]) = push (f v) v (groupBy f values) := by
      simp [groupBy, List.foldl_append]
    have hfilter (k : Text) : (values ++ [v]).filter (fun w => f w = k) =
        if k = f v then (values.filter fun w => f w = f v) ++ [v] else values.filter fun w => f w = k := by
      by_cases hk : k = f v
      · simp [hk]
      · simp [hk, Ne.symm hk]
    rw [hstep, ih, push, get?_map_keys, List.map_append, List.map_singleton, firstOccurrences_append_singleton]
    simp only [hfilter]
    by_cases hv : f v ∈ values.map f
    · rw [if_pos (mem_firstOccurrences.2 hv), if_pos hv, put_map_keys (nodup_firstOccurrences _)
        (mem_firstOccurrences.2 hv), Option.getD_some]
    · have hnot : f v ∉ firstOccurrences (values.map f) := fun h => hv (mem_firstOccurrences.1 h)
      have hrest : (firstOccurrences (values.map f)).map (fun k => (k, values.filter fun w => f w = k)) =
          (firstOccurrences (values.map f)).map fun k =>
            (k, if k = f v then (values.filter fun w => f w = f v) ++ [v] else values.filter fun w => f w = k) := by
        refine List.map_congr_left fun k hk => ?_
        rw [if_neg (ne_of_mem_of_not_mem hk hnot)]
      have hnone : values.filter (fun w => f w = f v) = [] := by
        refine List.filter_eq_nil_iff.2 fun w hw => ?_
        simpa using ne_of_mem_of_not_mem (List.mem_map_of_mem hw) hv
      have hkeys : f v ∉ Table.keys ((firstOccurrences (values.map f)).map fun k =>
          (k, values.filter fun w => f w = k)) := by
        simpa [Table.keys, Function.comp_def] using hnot
      rw [if_neg hnot, if_neg hv, put_of_notMem hkeys, List.map_append, ← hrest]
      simp [hnone]

theorem mem_of_mem_groupBy {f : α → Text} {values : List α} {e : Text × List α}
    (h : e ∈ groupBy f values) : ∀ v ∈ e.2, v ∈ values ∧ f v = e.1 := by
  rw [groupBy_eq] at h
  obtain ⟨k, -, rfl⟩ := List.mem_map.1 h
  intro v hv
  simpa using List.mem_filter.1 hv

theorem keys_groupBy (f : α → Text) (values : List α) :
    Table.keys (groupBy f values) = firstOccurrences (values.map f) := by
  rw [groupBy_eq, Table.keys, List.map_map]
  exact List.map_id _

theorem nodup_keys_groupBy (f : α → Text) (values : List α) : (Table.keys (groupBy f values)).Nodup :=
  keys_groupBy f values ▸ nodup_firstOccurrences _

private theorem perm_push (key : Text) (value : α) (t : Table (List α)) :
    ((push key value t).flatMap Prod.snd).Perm (t.flatMap Prod.snd ++ [value]) := by
  induction t with
  | nil => exact .refl _
  | cons e t ih =>
    obtain ⟨k, vs⟩ := e
    by_cases hk : k = key
    · have hpush : push key value ((k, vs) :: t) = (k, vs ++ [value]) :: t := by simp [push, put, get?, hk]
      rw [hpush, List.flatMap_cons, List.flatMap_cons, List.append_assoc, List.append_assoc]
      exact List.perm_append_comm.append_left vs
    · have hpush : push key value ((k, vs) :: t) = (k, vs) :: push key value t := by
        simp [push, put, get?, hk]
      rw [hpush, List.flatMap_cons, List.flatMap_cons, List.append_assoc]
      exact ih.append_left vs

theorem perm_groupBy (f : α → Text) (values : List α) : ((groupBy f values).flatMap Prod.snd).Perm values := by
  have key : ∀ vs : List α, ∀ t : Table (List α),
      ((vs.foldl (fun t v => push (f v) v t) t).flatMap Prod.snd).Perm (t.flatMap Prod.snd ++ vs) := by
    intro vs
    induction vs with
    | nil => simp
    | cons v vs ih =>
      intro t
      have hpush := (perm_push (f v) v t).append_right vs
      rw [List.append_assoc, List.singleton_append] at hpush
      exact (ih _).trans hpush
  exact key values []

end Groups

end Table

end ClientGen
