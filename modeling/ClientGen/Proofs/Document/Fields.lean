import ClientGen.Document.Value
/-!
# Entries of objects

What stands under a key when entries are left out, changed or added.
-/

namespace ClientGen

theorem Scalar.sameKey_text_iff {k : Scalar} {t : Text} : k.sameKey (.text t) = true ↔ k = .text t := by
  cases k <;> simp [sameKey, number?]
  split <;> simp_all

theorem Value.text?_scalar_eq_some_iff {k : Scalar} {t : Text} : (Value.scalar k).text? = some t ↔ k = .text t := by
  cases k <;> simp [text?]

namespace Fields

variable {key : Scalar} {t : Text} {fields : Fields} {keys : List Text}

/-- The entries but those under the keys. -/
def without (keys : List Text) (fields : Fields) : Fields := fields.filter fun e => e.1 ∉ keys.map Scalar.text

def only (keys : List Text) (fields : Fields) : Fields := fields.filter fun e => e.1 ∈ keys.map Scalar.text

def mapValues (f : Scalar → Value → Value) (fields : Fields) : Fields := fields.map fun e => (e.1, f e.1 e.2)

@[simp] theorem get?_nil (t : Text) : get? t [] = none := rfl

theorem get?_cons (k : Scalar) (v : Value) (t : Text) (fields : Fields) :
    get? t ((k, v) :: fields) = if k = .text t then some v else get? t fields := by
  simp only [get?, find?, Scalar.sameKey_text_iff]

theorem get?_append (t : Text) (as bs : Fields) : get? t (as ++ bs) = (get? t as).or (get? t bs) := by
  induction as with
  | nil => rfl
  | cons e as ih =>
    rw [List.cons_append, get?_cons, get?_cons, ih]
    split <;> rfl

theorem get?_optional {α : Type} (key : Text) (value : α → Value) (t : Text) (o : Option α) :
    get? t (o.map fun a => (Scalar.text key, value a)).toList = if t = key then o.map value else none := by
  cases o with
  | none => simp
  | some a =>
    rw [Option.map_some, Option.toList_some, get?_cons, get?_nil]
    by_cases h : t = key
    · rw [if_pos (h ▸ rfl), if_pos h, Option.map_some]
    · rw [if_neg (by simpa using Ne.symm h), if_neg h]

private theorem get?_filter (p : Scalar → Bool) (t : Text) (fields : Fields) :
    get? t (fields.filter fun e => p e.1) = if p (.text t) then get? t fields else none := by
  induction fields with
  | nil => simp
  | cons e fields ih =>
    obtain ⟨k, v⟩ := e
    rw [List.filter_cons, get?_cons]
    by_cases hk : k = .text t
    · subst hk
      by_cases hp : p (.text t) = true <;> simp [hp, get?_cons, ih]
    · by_cases hp : p k = true <;> simp [hp, hk, get?_cons, ih]

theorem get?_without (keys : List Text) (t : Text) (fields : Fields) :
    get? t (fields.without keys) = if t ∈ keys then none else get? t fields := by
  rw [without, get?_filter (· ∉ keys.map Scalar.text)]
  simp

theorem get?_only (keys : List Text) (t : Text) (fields : Fields) :
    get? t (fields.only keys) = if t ∈ keys then get? t fields else none := by
  rw [only, get?_filter (· ∈ keys.map Scalar.text)]
  simp

/-- A value changes by itself when the change is one for all spellings of its key. -/
theorem find?_mapValues {f : Scalar → Value → Value} (h : ∀ k, k.sameKey key = true → f k = f key) :
    find? key (fields.mapValues f) = (find? key fields).map (f key) := by
  induction fields with
  | nil => rfl
  | cons e fields ih =>
    obtain ⟨k, v⟩ := e
    rw [mapValues, List.map_cons, find?, find?]
    split
    · next hk => rw [Option.map_some, h k hk]
    · exact ih

theorem get?_mapValues (f : Scalar → Value → Value) (t : Text) (fields : Fields) :
    get? t (fields.mapValues f) = (get? t fields).map (f (.text t)) :=
  find?_mapValues fun k hk => by rw [Scalar.sameKey_text_iff.1 hk]

theorem mem_of_find? {v : Value} (h : find? key fields = some v) : ∃ k, (k, v) ∈ fields := by
  induction fields with
  | nil => cases h
  | cons e fields ih =>
    obtain ⟨k, w⟩ := e
    rw [find?] at h
    split at h
    · obtain rfl := Option.some.inj h
      exact ⟨k, List.mem_cons_self⟩
    · obtain ⟨k, hk⟩ := ih h
      exact ⟨k, List.mem_cons_of_mem _ hk⟩

theorem find?_eq_none_iff : find? key fields = none ↔ ∀ e ∈ fields, e.1.sameKey key = false := by
  induction fields with
  | nil => simp [find?]
  | cons e fields ih =>
    obtain ⟨k, v⟩ := e
    rw [find?, List.forall_mem_cons]
    by_cases hk : k.sameKey key = true
    · simp [hk]
    · simp [hk, ih]

/-! ## Objects as they are read -/

def Distinct (fields : Fields) : Prop := fields.Pairwise fun e f => e.1.sameKey f.1 = false

theorem keys_put (key : Scalar) (value : Value) (fields : Fields) :
    (put key value fields).map Prod.fst =
      if fields.any (·.1.sameKey key) then fields.map Prod.fst else fields.map Prod.fst ++ [key] := by
  induction fields with
  | nil => rfl
  | cons e fields ih =>
    obtain ⟨k, v⟩ := e
    by_cases hk : k.sameKey key = true
    · simp [put, hk]
    · rw [put, if_neg hk, List.map_cons, ih]
      simp only [List.any_cons, hk, Bool.false_or, List.map_cons]
      split <;> simp

theorem distinct_iff {fields : Fields} :
    fields.Distinct ↔ (fields.map Prod.fst).Pairwise fun a b => a.sameKey b = false := by
  rw [List.pairwise_map]
  rfl

theorem Distinct.put {fields : Fields} (h : fields.Distinct) (key : Scalar) (value : Value) :
    (put key value fields).Distinct := by
  rw [distinct_iff, keys_put]
  split
  · exact distinct_iff.1 h
  · next hnone =>
    refine List.pairwise_append.2 ⟨distinct_iff.1 h, List.pairwise_singleton _ _, ?_⟩
    intro k hk _ hkey
    obtain ⟨e, he, rfl⟩ := List.mem_map.1 hk
    rw [List.mem_singleton.1 hkey]
    simpa using fun hsame => hnone (List.any_eq_true.2 ⟨e, he, hsame⟩)

/-- The objects that readers of documents make have distinct keys. -/
theorem distinct_ofEntries (entries : List (Scalar × Value)) : (ofEntries entries).Distinct := by
  have key : ∀ es : List (Scalar × Value), ∀ fields : Fields, fields.Distinct →
      (es.foldl (fun fields e => ClientGen.Fields.put e.1 e.2 fields) fields).Distinct := by
    intro es
    induction es with
    | nil => exact fun _ h => h
    | cons e es ih => exact fun fields h => ih _ (h.put e.1 e.2)
  exact key entries [] List.Pairwise.nil

theorem put_of_forall {fields : Fields} {key : Scalar} (h : ∀ e ∈ fields, e.1.sameKey key = false) (value : Value) :
    put key value fields = fields ++ [(key, value)] := by
  induction fields with
  | nil => rfl
  | cons e fields ih =>
    obtain ⟨k, v⟩ := e
    have hk : k.sameKey key = false := h _ List.mem_cons_self
    rw [put, if_neg (by simp [hk]), ih fun e he => h e (List.mem_cons_of_mem _ he), List.cons_append]

theorem ofEntries_of_distinct {fields : Fields} (h : fields.Distinct) : ofEntries fields = fields := by
  have key : ∀ es done : Fields, (done ++ es).Distinct →
      es.foldl (fun fields e => ClientGen.Fields.put e.1 e.2 fields) done = done ++ es := by
    intro es
    induction es with
    | nil => exact fun done _ => (List.append_nil done).symm
    | cons e es ih =>
      intro done hdone
      have hnew : ∀ f ∈ done, f.1.sameKey e.1 = false := fun f hf =>
        (List.pairwise_append.1 hdone).2.2 f hf e List.mem_cons_self
      have happend : done ++ [e] ++ es = done ++ e :: es := by simp
      rw [List.foldl_cons, put_of_forall hnew, ih _ (happend.symm ▸ hdone), happend]
  exact key fields [] h

theorem Distinct.get?_of_mem {fields : Fields} (h : fields.Distinct) {t : Text} {v : Value}
    (hv : (.text t, v) ∈ fields) : fields.get? t = some v := by
  induction fields with
  | nil => cases hv
  | cons e fields ih =>
    obtain ⟨k, w⟩ := e
    obtain ⟨hfirst, hrest⟩ := List.pairwise_cons.1 h
    rw [get?_cons]
    rcases List.mem_cons.1 hv with heq | hmem
    · cases heq
      exact if_pos rfl
    · have hk : k ≠ .text t := by
        rintro rfl
        have hsame : (Scalar.text t).sameKey (.text t) = false := hfirst _ hmem
        rw [Scalar.sameKey_text_iff.2 rfl] at hsame
        cases hsame
      rw [if_neg hk]
      exact ih hrest hmem

/-- The keys that are texts, in order. -/
def textKeys (fields : Fields) : List Text := fields.filterMap fun e => (Value.scalar e.1).text?

theorem mem_textKeys {fields : Fields} : t ∈ textKeys fields ↔ ∃ v, (.text t, v) ∈ fields := by
  simp only [textKeys, List.mem_filterMap, Prod.exists]
  constructor
  · rintro ⟨k, v, hmem, hk⟩
    obtain rfl := Value.text?_scalar_eq_some_iff.1 hk
    exact ⟨v, hmem⟩
  · rintro ⟨v, hmem⟩
    exact ⟨_, v, hmem, rfl⟩

theorem Distinct.nodup_textKeys (h : fields.Distinct) : fields.textKeys.Nodup := by
  induction fields with
  | nil => exact List.nodup_nil
  | cons e fields ih =>
    obtain ⟨k, v⟩ := e
    obtain ⟨hfirst, hrest⟩ := List.pairwise_cons.1 h
    cases k with
    | text t =>
      refine List.nodup_cons.2 ⟨fun hmem => ?_, ih hrest⟩
      obtain ⟨w, hw⟩ := mem_textKeys.1 hmem
      have hsame : (Scalar.text t).sameKey (.text t) = false := hfirst _ hw
      rw [Scalar.sameKey_text_iff.2 rfl] at hsame
      cases hsame
    | _ => exact ih hrest

end Fields

end ClientGen
