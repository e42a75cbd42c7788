import ClientGen.Proofs.Api.Filing
import ClientGen.Proofs.Project.Check
/-!
# Tables of aliases in a file

A file of aliases is not there, or it holds an object of texts. What a registration adds to such a table is one entry
for every category that is new, in order.
-/

namespace ClientGen

open Text ClientGen.Task FileTree

variable {m m' : Machine} {output : Path} {table : Table Text} {document : Fields} {tags : List Text}

/-! ## Order of texts -/

theorem Text.le_total (s t : Text) : (le s t || le t s) = true := by
  induction s generalizing t with
  | nil => rfl
  | cons a s ih =>
    cases t with
    | nil => rfl
    | cons b t =>
      rw [le, le]
      split
      · rfl
      split
      · simp
      · simpa using ih t

theorem Text.le_trans (s t u : Text) (h : le s t = true) (h' : le t u = true) : le s u = true := by
  induction s generalizing t u with
  | nil => rfl
  | cons a s ih =>
    cases t with
    | nil => cases h
    | cons b t =>
      cases u with
      | nil => cases h'
      | cons c u =>
        rw [le] at h h' ⊢
        grind

/-! ## Categories of a document -/

/-- An operation object of the document has the category. A path need not be a text. -/
def IsFirstTag (document : Fields) (tag : Text) : Prop :=
  ∃ (path : Scalar) (item : Fields) (method : Text) (operation : Fields),
    (path, .object item) ∈ documentPaths document ∧ method ∈ Naming.httpMethods ∧
      item.get? method = some (.object operation) ∧ firstTag operation = tag

private theorem mem_pathItems {path : Scalar} {item : Fields} :
    (path, item) ∈ pathItems document ↔ (path, .object item) ∈ documentPaths document := by
  have hfields (v : Value) : v.fields? = some item ↔ v = .object item := by
    cases v <;> simp [Value.fields?]
  have hpaths : pathItems document = (documentPaths document).filterMap fun e => e.2.fields?.map (e.1, ·) := rfl
  simp only [hpaths, List.mem_filterMap, Prod.exists, Option.map_eq_some_iff, Prod.mk.injEq]
  constructor
  · rintro ⟨path, v, hmem, item, hv, rfl, rfl⟩
    rw [(hfields v).1 hv] at hmem
    exact hmem
  · intro hmem
    exact ⟨path, _, hmem, item, rfl, rfl, rfl⟩

private theorem mem_operationsOfItem {path : Text} {item : Fields} {raw : RawOperation} :
    raw ∈ operationsOfItem path item ↔ ∃ method ∈ Naming.httpMethods, ∃ operation,
      item.get? method = some (.object operation) ∧ raw = ⟨path, item, method, operation⟩ := by
  have hchild (method : Text) (operation : Fields) :
      (item.get? method).bind Value.fields? = some operation ↔ item.get? method = some (.object operation) :=
    Fields.child?_eq_some_iff
  simp only [operationsOfItem, List.mem_filterMap, Option.map_eq_some_iff, hchild]
  constructor
  · rintro ⟨method, hmethod, operation, hget, rfl⟩
    exact ⟨method, hmethod, operation, hget, rfl⟩
  · rintro ⟨method, hmethod, operation, hget, rfl⟩
    exact ⟨method, hmethod, operation, hget, rfl⟩

theorem mem_allTags_iff {tag : Text} : tag ∈ allTags document ↔ IsFirstTag document tag := by
  simp only [allTags, Text.sort, List.mem_mergeSort, mem_firstOccurrences, List.mem_map, List.mem_flatMap, Prod.exists]
  constructor
  · rintro ⟨raw, ⟨path, item, hitem, hraw⟩, rfl⟩
    obtain ⟨method, hmethod, operation, hget, rfl⟩ := mem_operationsOfItem.1 hraw
    exact ⟨path, item, method, operation, mem_pathItems.1 hitem, hmethod, hget, rfl⟩
  · rintro ⟨path, item, method, operation, hitem, hmethod, hget, rfl⟩
    exact ⟨⟨[], item, method, operation⟩, ⟨path, item, mem_pathItems.2 hitem,
      mem_operationsOfItem.2 ⟨method, hmethod, operation, hget, rfl⟩⟩, rfl⟩

theorem nodup_allTags (document : Fields) : (allTags document).Nodup :=
  (List.mergeSort_perm _ _).nodup_iff.2 (nodup_firstOccurrences _)

theorem allTags_sorted (document : Fields) : (allTags document).Pairwise fun s t => le s t = true ∧ s ≠ t :=
  (List.pairwise_mergeSort le_trans le_total _).and (nodup_allTags document)

/-! ## Registration -/

def identities (tags : List Text) : Table Text := tags.map fun tag => (tag, tag)

@[simp] theorem keys_identities (tags : List Text) : (identities tags).keys = tags := by
  simp [identities, Table.keys, Function.comp_def]

def newTags (known tags : List Text) : List Text := tags.filter (· ∉ known)

theorem Aliases.register_eq {a : Aliases} (hn : tags.Nodup) :
    (a.register tags).mapping = a.mapping ++ identities (newTags a.mapping.keys tags) ∧
      (a.register tags).discovered = a.discovered ++ newTags a.mapping.keys tags := by
  induction tags generalizing a with
  | nil => simp [register, newTags, identities]
  | cons tag tags ih =>
    obtain ⟨htag, hn⟩ := List.nodup_cons.1 hn
    rw [register_cons]
    by_cases hknown : tag ∈ a.mapping.keys
    · rw [if_pos (Table.has_iff.2 hknown)]
      have hskip : newTags a.mapping.keys (tag :: tags) = newTags a.mapping.keys tags := by
        simp [newTags, hknown]
      rw [hskip]
      exact ih hn
    · rw [if_neg (mt Table.has_iff.1 hknown)]
      obtain ⟨hmapping, hdiscovered⟩ := ih hn (a := { a with
        mapping := a.mapping.put tag tag, discovered := a.discovered ++ [tag] })
      have hkeys : (a.mapping.put tag tag).keys = a.mapping.keys ++ [tag] := by
        rw [Table.keys_put, if_neg hknown]
      -- What is registered next is none of the tags that follow.
      have hrest : newTags (a.mapping.keys ++ [tag]) tags = newTags a.mapping.keys tags := by
        apply List.filter_congr
        intro other hother
        have hne : other ≠ tag := ne_of_mem_of_not_mem hother htag
        simp [hne]
      have hfirst : newTags a.mapping.keys (tag :: tags) = tag :: newTags a.mapping.keys tags := by
        simp [newTags, hknown]
      dsimp only at hmapping hdiscovered
      rw [hkeys, hrest] at hmapping hdiscovered
      rw [hmapping, hdiscovered, hfirst, Table.put_of_notMem hknown]
      simp [identities]

/-! ## The table that a file holds -/

/-- What the file of aliases of an output directory holds, if it is there. -/
def aliasContent? (output : Path) (t : FileTree) : Option Content :=
  match t.find true (output.child aliasFileName) with
  | .ok (_, some (.file c)) => some c
  | _ => none

/-- A file of aliases that is not there holds no entries; one that is there holds those of an object of texts. -/
inductive HoldsTable : Option Content → Table Text → Prop
  | absent : HoldsTable none []
  | object {u : Text} {table : Table Text}
      (h : Json.read (unifyLineEnds u) = .ok (.object (Json.textFields table))) : HoldsTable (some (.text u)) table

theorem aliasContent?_eq_some_iff {t : FileTree} {c : Content} :
    aliasContent? output t = some c ↔ ∃ p, t.find true (output.child aliasFileName) = .ok (p, some (.file c)) := by
  unfold aliasContent?
  constructor
  · intro h
    split at h
    · next p c' hf => exact ⟨p, Option.some.inj h ▸ hf⟩
    · cases h
  · rintro ⟨p, hf⟩
    rw [hf]

private theorem exists_of_bind {ε α β : Type} {x : Except ε α} {f : α → Except ε β} {b : β} (h : x >>= f = .ok b) :
    ∃ a, x = .ok a ∧ f a = .ok b := by
  cases x with
  | error e => cases h
  | ok a => exact ⟨a, rfl, h⟩

private theorem distinct_of_value {fuel : Nat} {t rest : Text} {fields : Fields}
    (h : Json.value fuel t = .ok (.object fields, rest)) : fields.Distinct := by
  cases fuel with
  | zero => cases h
  | succ fuel =>
    unfold Json.value at h
    split at h
    · split at h <;> cases h
    · split at h
      · cases h
      · obtain ⟨_, -, hv⟩ := exists_of_bind h
        cases hv
    · split at h
      · cases h
        exact List.Pairwise.nil
      · obtain ⟨_, -, hv⟩ := exists_of_bind h
        cases hv
        exact Fields.distinct_ofEntries _
    · obtain ⟨_, -, hv⟩ := exists_of_bind h
      cases hv

theorem Json.distinct_of_read {u : Text} {fields : Fields} (h : Json.read u = .ok (.object fields)) :
    fields.Distinct := by
  unfold Json.read at h
  obtain ⟨⟨v, rest⟩, hv, h⟩ := exists_of_bind h
  dsimp only at h
  split at h
  · obtain rfl := Except.ok.inj h
    exact distinct_of_value hv
  · cases h

theorem HoldsTable.nodup {c : Option Content} (h : HoldsTable c table) : table.keys.Nodup := by
  cases h with
  | absent => exact List.nodup_nil
  | object h =>
    have hkeys : Fields.textKeys (Json.textFields table) = table.keys := by
      simp [Fields.textKeys, Json.textFields, Table.keys, Value.text?]
    exact hkeys ▸ (Json.distinct_of_read h).nodup_textKeys

/-! ## Loading and saving -/

/-- The table that a file holds is the one that is loaded from it. -/
theorem HoldsTable.eq_of_ends {mapping : Table Text} (h : HoldsTable (aliasContent? output m.files) table)
    (hr : (readAliasFile output : Task (StateM Machine) (Table Text)).Ends m mapping m') : mapping = table := by
  generalize hc : aliasContent? output m.files = c at h
  have hnodup := h.nodup
  cases h with
  | absent =>
    unfold readAliasFile at hr
    obtain ⟨b, m₁, hb, hr⟩ := ends_bind.1 hr
    obtain ⟨hfile, rfl⟩ := ends_isFile.1 hb
    cases b with
    | false =>
      obtain ⟨rfl, -⟩ := ends_pure.1 hr
      rfl
    | true =>
      obtain ⟨p, c, hf⟩ := isFile_eq_true_iff.1 hfile
      rw [aliasContent?_eq_some_iff.2 ⟨p, hf⟩] at hc
      cases hc
  | object hjson =>
    obtain ⟨p, hf⟩ := aliasContent?_eq_some_iff.1 hc
    exact (hr.unique (ends_readAliasFile_of_object hnodup hf hjson)).1

theorem aliasContent?_saved {a : Aliases} {u : Unit} (hwritten : ¬(a.source = .config || a.discovered = []) = true)
    (h : (saveAliases output a : Task (StateM Machine) Unit).Ends m u m') :
    aliasContent? output m'.files = some (.text (Json.write (Aliases.toValue a.mapping) ++ "\n")) := by
  unfold saveAliases at h
  rw [if_neg hwritten] at h
  obtain ⟨_, m₁, -, h⟩ := ends_bind.1 h
  obtain ⟨files, hw, rfl⟩ := ends_writeText.1 h
  obtain ⟨p, -, -, -, hf, -⟩ := write_put hw
  exact aliasContent?_eq_some_iff.2 ⟨p, hf⟩

/-- Saving aliases that were loaded adds the new categories to the table of the file. -/
theorem HoldsTable.saved {given : Aliases} {u : Unit} (h : HoldsTable (aliasContent? output m.files) given.mapping)
    (hsource : given.source ≠ .config) (hdiscovered : given.discovered = []) (hn : tags.Nodup)
    (hs : (saveAliases output (given.register tags) : Task (StateM Machine) Unit).Ends m u m') :
    HoldsTable (aliasContent? output m'.files)
      (given.mapping ++ identities (newTags given.mapping.keys tags)) := by
  obtain ⟨hmapping, hnew⟩ := Aliases.register_eq (a := given) hn
  rw [hdiscovered, List.nil_append] at hnew
  by_cases hnone : newTags given.mapping.keys tags = []
  · have hsame := (ends_saveAliases hs).2 (hnew.trans hnone)
    rw [hnone, hsame]
    simpa [identities] using h
  · have hwritten : ¬((given.register tags).source = .config || (given.register tags).discovered = []) = true := by
      simp [Aliases.source_register, hsource, hnew, hnone]
    rw [aliasContent?_saved hwritten hs, ← hmapping]
    exact .object (Aliases.read_written (Aliases.nodup_register h.nodup))

end ClientGen
