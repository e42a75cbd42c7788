import ClientGen.Text.Basic
/-!
# Tables in order of insertion

A table lists keys with their values. An entry put under a new key goes to the end; one put under a
known key takes the place of the old entry.
-/

namespace ClientGen

/-- Values under texts, in order of insertion. -/
abbrev Table (α : Type) := List (Text × α)

namespace Table

variable {α β : Type}

def get? (key : Text) : Table α → Option α
  | [] => none
  | (k, v) :: rest => if k = key then some v else get? key rest

def put (key : Text) (value : α) : Table α → Table α
  | [] => [(key, value)]
  | (k, v) :: rest => if k = key then (k, value) :: rest else (k, v) :: put key value rest

def keys (t : Table α) : List Text := t.map Prod.fst

def has (key : Text) (t : Table α) : Bool := (get? key t).isSome

/-- The table of a list of entries, put one after the other. -/
def ofEntries (entries : List (Text × α)) : Table α :=
  entries.foldl (fun t (k, v) => put k v t) []

/-- The table with a value added to the list under a key. -/
def push (key : Text) (value : α) (t : Table (List α)) : Table (List α) :=
  put key ((get? key t).getD [] ++ [value]) t

/-- The values listed under the key that `f` gives them, keys in order of first use. -/
def groupBy (f : α → Text) (values : List α) : Table (List α) :=
  values.foldl (fun t v => push (f v) v t) []

@[simp] theorem get?_put_self (key : Text) (value : α) (t : Table α) :
    get? key (put key value t) = some value := by
  induction t with
  | nil => simp [put, get?]
  | cons e t ih =>
    obtain ⟨k, v⟩ := e
    by_cases h : k = key <;> simp [put, get?, h, ih]

theorem get?_put_of_ne {key other : Text} (h : other ≠ key) (value : α) (t : Table α) :
    get? other (put key value t) = get? other t := by
  induction t with
  | nil => simp [put, get?, Ne.symm h]
  | cons e t ih =>
    obtain ⟨k, v⟩ := e
    by_cases hk : k = key
    · subst hk; simp [put, get?, Ne.symm h]
    · by_cases ho : k = other <;> simp [put, get?, hk, ho, ih, h]

theorem keys_put (key : Text) (value : α) (t : Table α) :
    keys (put key value t) = if key ∈ keys t then keys t else keys t ++ [key] := by
  induction t with
  | nil => simp [put, keys]
  | cons e t ih =>
    obtain ⟨k, v⟩ := e
    by_cases hk : k = key
    · subst hk; simp [put, keys]
    · simp only [keys] at ih
      simp only [put, hk, if_false, keys, List.map_cons, ih, List.mem_cons, Ne.symm hk, false_or]
      split <;> simp [*]

theorem nodup_keys_put (key : Text) (value : α) {t : Table α} (h : (keys t).Nodup) :
    (keys (put key value t)).Nodup := by
  rw [keys_put]
  split
  · exact h
  · next hk =>
    refine List.nodup_append.2 ⟨h, by simp, ?_⟩
    rintro a ha b hb rfl
    simp only [List.mem_singleton] at hb
    exact hk (hb ▸ ha)

end Table

end ClientGen
