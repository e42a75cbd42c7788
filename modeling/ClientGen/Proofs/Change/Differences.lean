import ClientGen.Proofs.Change.Types
/-!
# Changes name by name

Two tables of declarations are compared name by name, and two declarations of one name part by part: each
field, what is extended, and the type that an alias stands for. There is one change for everything that
differs, and none for what agrees.
-/

namespace ClientGen

open Text Source

/-! ## Tables -/

section Tables

variable {α β : Type} {change? : Text → Option α → Option α → Option β} {old new : Table α}

/-- The changes between two tables, where `change?` tells the change of a name by what stands under it in
both. -/
def tableChanges (change? : Text → Option α → Option α → Option β) (old new : Table α) : List β :=
  new.filterMap (fun e => change? e.1 (old.get? e.1) (some e.2)) ++
    (old.filter fun e => !new.has e.1).filterMap fun e => change? e.1 (some e.2) none

private theorem get?_eq_none_iff {key : Text} {t : Table α} : t.get? key = none ↔ key ∉ t.keys := by
  rw [← Table.has_iff, Table.has, Option.not_isSome_iff_eq_none]

theorem mem_tableChanges_iff (hn : ∀ key, change? key none none = none) (ho : old.keys.Nodup)
    (hk : new.keys.Nodup) {c : β} :
    c ∈ tableChanges change? old new ↔ ∃ key, change? key (old.get? key) (new.get? key) = some c := by
  simp only [tableChanges, List.mem_append, List.mem_filterMap, List.mem_filter]
  constructor
  · rintro (⟨⟨key, n⟩, he, hc⟩ | ⟨⟨key, o⟩, ⟨he, hgone⟩, hc⟩)
    · exact ⟨key, by rw [Table.get?_of_mem hk he, hc]⟩
    · have hnone : new.get? key = none := by simpa [Table.has] using hgone
      exact ⟨key, by rw [Table.get?_of_mem ho he, hnone, hc]⟩
  · rintro ⟨key, hc⟩
    cases hnew : new.get? key with
    | some n =>
      rw [hnew] at hc
      exact .inl ⟨(key, n), Table.mem_of_get? hnew, hc⟩
    | none =>
      cases hold : old.get? key with
      | some o =>
        rw [hnew, hold] at hc
        exact .inr ⟨(key, o), ⟨Table.mem_of_get? hold, by simp [Table.has, hnew]⟩, hc⟩
      | none =>
        rw [hnew, hold, hn] at hc
        cases hc

theorem tableChanges_eq_nil_iff (hn : ∀ key, change? key none none = none) (ho : old.keys.Nodup)
    (hk : new.keys.Nodup) :
    tableChanges change? old new = [] ↔ ∀ key, change? key (old.get? key) (new.get? key) = none := by
  rw [List.eq_nil_iff_forall_not_mem]
  simp only [mem_tableChanges_iff hn ho hk, not_exists]
  rw [forall_comm]
  exact forall_congr' fun key => Option.eq_none_iff_forall_ne_some.symm

theorem nodup_tableChanges {name : β → Text} (hname : ∀ key o n c, change? key o n = some c → name c = key)
    (ho : old.keys.Nodup) (hk : new.keys.Nodup) : ((tableChanges change? old new).map name).Nodup := by
  have hsub {t : Table α} {f : Text × α → Option β} (hf : ∀ e c, f e = some c → name c = e.1) :
      ((t.filterMap f).map name).Sublist t.keys := by
    induction t with
    | nil => simp
    | cons e t ih =>
      cases he : f e with
      | none =>
        rw [List.filterMap_cons_none he]
        exact ih.cons e.1
      | some c =>
        rw [List.filterMap_cons_some he, List.map_cons, hf e c he]
        exact ih.cons_cons e.1
  have hpresent := hsub (t := new) (f := fun e => change? e.1 (old.get? e.1) (some e.2))
    fun e c hc => hname _ _ _ _ hc
  have hgone := hsub (t := old.filter fun e => !new.has e.1) (f := fun e => change? e.1 (some e.2) none)
    fun e c hc => hname _ _ _ _ hc
  rw [tableChanges, List.map_append, List.nodup_append]
  refine ⟨hk.sublist hpresent, ho.sublist (hgone.trans (List.filter_sublist.map _)), ?_⟩
  rintro key hnew _ hold rfl
  obtain ⟨e, he, rfl⟩ := List.mem_map.1 (hgone.subset hold)
  have hno := (List.mem_filter.1 he).2
  rw [Table.has_iff.2 (hpresent.subset hnew)] at hno
  cases hno

end Tables

/-! ## Fields -/

namespace Source.Field

/-- Two fields agree when both may be absent or neither, and their types differ at most in formatting. -/
def Agrees (o n : Field) : Prop := o.isOptional = n.isOptional ∧ normalizeType o.type = normalizeType n.type

theorem agrees_iff {o n : Field} : o.agrees n = true ↔ o.Agrees n := by simp [agrees, Agrees]

end Source.Field

/-- The change of a field, by what there is of it on both sides. -/
def fieldChange? (name : Text) (old new : Option Field) : Option FieldChange :=
  match old, new with
  | none, none => none
  | none, some n => some { field := name, kind := .added, newType := some n.type, newOptional := n.isOptional }
  | some o, none => some { field := name, kind := .removed, oldType := some o.type, oldOptional := o.isOptional }
  | some o, some n =>
    if o.agrees n then none
    else
      some
        { field := name, kind := .modified, oldType := some o.type, newType := some n.type
          oldOptional := o.isOptional, newOptional := n.isOptional }

theorem fieldChange?_eq_none_iff {name : Text} {old new : Option Field} :
    fieldChange? name old new = none ↔ Option.Rel Field.Agrees old new := by
  cases old with
  | none => cases new <;> simp [fieldChange?]
  | some o =>
    cases new with
    | none => simp [fieldChange?]
    | some n =>
      rw [Option.rel_some_some, ← Field.agrees_iff]
      simp [fieldChange?]

theorem field_fieldChange? {name : Text} {old new : Option Field} {c : FieldChange}
    (h : fieldChange? name old new = some c) : c.field = name := by
  unfold fieldChange? at h
  split at h
  · cases h
  · cases h
    rfl
  · cases h
    rfl
  · split at h
    · cases h
    · cases h
      rfl

theorem fieldChanges_eq (old new : Table Field) : fieldChanges old new = tableChanges fieldChange? old new := by
  unfold fieldChanges tableChanges
  dsimp only
  congr 1
  · refine List.filterMap_congr fun e _ => ?_
    cases old.get? e.1 <;> simp only [fieldChange?]
  · rw [← List.filterMap_eq_map]
    rfl

/-! ## Declarations -/

/-- What is compared of a declaration: each of its fields, what it extends, and the type that it stands for. -/
inductive Part where
  | field (name : Text)
  | parents
  | aliased
deriving DecidableEq

/-- The name under which a change of the part is listed. -/
def Part.name : Part → Text
  | field name => name
  | parents => "(extends)"
  | aliased => "(alias)"

namespace Source.Declared

/-- What a declaration has of a part. What is extended, if anything, and the type of an alias count as fields that
are always present. -/
def part? (d : Declared) : Part → Option Field
  | .field name => d.fields.get? name
  | .parents => (parentsText d.parents).map (⟨·, false⟩)
  | .aliased => d.aliased?.map (⟨·, false⟩)

/-- Two declarations agree when they agree in every part. -/
def Agrees (o n : Declared) : Prop := ∀ p, Option.Rel Field.Agrees (o.part? p) (n.part? p)

end Source.Declared

/-- The changes `cs` are those of the parts in which two declarations differ, one for each. -/
def ListsDifferences (o n : Declared) (cs : List FieldChange) : Prop :=
  ∃ entries : List (Part × FieldChange), cs = entries.map Prod.snd ∧ (entries.map Prod.fst).Nodup ∧
    ∀ p c, (p, c) ∈ entries ↔ fieldChange? p.name (o.part? p) (n.part? p) = some c

theorem textChange?_eq (name : Text) (old new : Option Text) :
    textChange? name old new = fieldChange? name (old.map (⟨·, false⟩)) (new.map (⟨·, false⟩)) := by
  cases old with
  | none => cases new <;> rfl
  | some o =>
    cases new with
    | none => rfl
    | some n => simp [textChange?, fieldChange?, Field.agrees]

/-- The changes of one part, each beside the part. -/
private def partEntries (o n : Declared) (p : Part) : List (Part × FieldChange) :=
  (fieldChange? p.name (o.part? p) (n.part? p)).toList.map fun c => (p, c)

private theorem mem_partEntries_iff {o n : Declared} {p q : Part} {c : FieldChange} :
    (q, c) ∈ partEntries o n p ↔ q = p ∧ fieldChange? q.name (o.part? q) (n.part? q) = some c := by
  simp only [partEntries, List.mem_map, Option.mem_toList, Prod.mk.injEq]
  constructor
  · rintro ⟨c, hc, rfl, rfl⟩
    exact ⟨rfl, hc⟩
  · rintro ⟨rfl, hc⟩
    exact ⟨c, hc, rfl, rfl⟩

private theorem parts_partEntries (o n : Declared) (p : Part) :
    List.Sublist ((partEntries o n p).map Prod.fst) [p] := by
  cases h : fieldChange? p.name (o.part? p) (n.part? p) <;> simp [partEntries, h]

/-- The changes of the fields, each beside its part. -/
private def fieldEntries (o n : Declared) : List (Part × FieldChange) :=
  (fieldChanges o.fields n.fields).map fun c => (.field c.field, c)

private theorem mem_fieldEntries_iff {o n : Declared} (ho : o.fields.keys.Nodup) (hn : n.fields.keys.Nodup) {p : Part}
    {c : FieldChange} : (p, c) ∈ fieldEntries o n ↔
      (∃ name, p = .field name) ∧ fieldChange? p.name (o.part? p) (n.part? p) = some c := by
  have hnone : ∀ key, fieldChange? key none none = none := fun _ => rfl
  simp only [fieldEntries, fieldChanges_eq, List.mem_map, mem_tableChanges_iff hnone ho hn, Prod.mk.injEq]
  constructor
  · rintro ⟨c, ⟨name, hc⟩, rfl, rfl⟩
    rw [field_fieldChange? hc]
    exact ⟨⟨name, rfl⟩, hc⟩
  · rintro ⟨⟨name, rfl⟩, hc⟩
    exact ⟨c, ⟨name, hc⟩, congrArg _ (field_fieldChange? hc), rfl⟩

private theorem nodup_fieldEntries {o n : Declared} (ho : o.fields.keys.Nodup) (hn : n.fields.keys.Nodup) :
    ((fieldEntries o n).map Prod.fst).Nodup := by
  have hnames : ((fieldChanges o.fields n.fields).map FieldChange.field).Nodup := by
    rw [fieldChanges_eq]
    exact nodup_tableChanges (fun _ _ _ _ h => field_fieldChange? h) ho hn
  have hparts :
      (fieldEntries o n).map Prod.fst = ((fieldChanges o.fields n.fields).map FieldChange.field).map .field := by
    rw [fieldEntries, List.map_map, List.map_map]
    rfl
  rw [hparts]
  exact hnames.map fun _ _ => Part.field.inj

theorem listsDifferences_declarationChanges {o n : Declared} (ho : o.fields.keys.Nodup) (hn : n.fields.keys.Nodup) :
    ListsDifferences o n (declarationChanges o n) := by
  refine ⟨fieldEntries o n ++ partEntries o n .parents ++ partEntries o n .aliased, ?_, ?_, ?_⟩
  · have hfields : (fieldEntries o n).map Prod.snd = fieldChanges o.fields n.fields := by
      rw [fieldEntries, List.map_map]
      exact List.map_id _
    have hpart (p : Part) :
        (partEntries o n p).map Prod.snd = (fieldChange? p.name (o.part? p) (n.part? p)).toList := by
      rw [partEntries, List.map_map]
      exact List.map_id _
    rw [List.map_append, List.map_append, hfields, hpart, hpart, declarationChanges, textChange?_eq, textChange?_eq]
    rfl
  · have hothers := (parts_partEntries o n .parents).append (parts_partEntries o n .aliased)
    rw [List.append_assoc, List.map_append, List.map_append]
    refine List.nodup_append.2 ⟨nodup_fieldEntries ho hn, List.Nodup.sublist hothers (by decide), ?_⟩
    rintro p hp _ hother rfl
    obtain ⟨⟨p, c⟩, hc, rfl⟩ := List.mem_map.1 hp
    obtain ⟨⟨name, rfl⟩, -⟩ := (mem_fieldEntries_iff ho hn).1 hc
    simpa using hothers.subset hother
  · intro p c
    rw [List.mem_append, List.mem_append, mem_fieldEntries_iff ho hn, mem_partEntries_iff, mem_partEntries_iff]
    cases p <;> simp

theorem declarationChanges_eq_nil_iff {o n : Declared} (ho : o.fields.keys.Nodup) (hn : n.fields.keys.Nodup) :
    declarationChanges o n = [] ↔ o.Agrees n := by
  obtain ⟨entries, hentries, -, hmem⟩ := listsDifferences_declarationChanges ho hn
  rw [hentries, List.map_eq_nil_iff, List.eq_nil_iff_forall_not_mem]
  simp only [Prod.forall, hmem]
  exact forall_congr' fun p => Option.eq_none_iff_forall_ne_some.symm.trans fieldChange?_eq_none_iff

/-! ## Tables of declarations -/

/-- The change of a type, by what is declared under its name on both sides. -/
def typeChange? (name : Text) (old new : Option Declared) : Option TypeChange :=
  match old, new with
  | none, none => none
  | none, some _ => some { name, kind := .added }
  | some _, none => some { name, kind := .removed }
  | some o, some n =>
    match declarationChanges o n with
    | [] => none
    | fields => some { name, kind := .modified, fields }

theorem typeChanges_eq (old new : Table Declared) : typeChanges old new = tableChanges typeChange? old new := by
  unfold typeChanges tableChanges
  dsimp only
  congr 1
  · refine List.filterMap_congr fun e _ => ?_
    cases old.get? e.1 with
    | none => rfl
    | some o => cases hchanges : declarationChanges o e.2 <;> simp only [typeChange?, hchanges]
  · rw [← List.filterMap_eq_map]
    rfl

theorem typeChange?_cases {name : Text} {old new : Option Declared} {c : TypeChange}
    (h : typeChange? name old new = some c) :
    (c.kind ≠ .modified ∧ c = { name, kind := c.kind }) ∨ c = { name, kind := .modified, fields := c.fields } := by
  unfold typeChange? at h
  split at h
  · cases h
  · cases h
    exact .inl ⟨nofun, rfl⟩
  · cases h
    exact .inl ⟨nofun, rfl⟩
  · split at h
    · cases h
    · cases h
      exact .inr rfl

theorem name_typeChange? {name : Text} {old new : Option Declared} {c : TypeChange}
    (h : typeChange? name old new = some c) : c.name = name := by
  rcases typeChange?_cases h with ⟨-, hc⟩ | hc <;> rw [hc]

section Found

variable {old new : Table Declared}

private theorem mem_typeChanges_iff (ho : old.keys.Nodup) (hn : new.keys.Nodup) {c : TypeChange} :
    c ∈ typeChanges old new ↔ ∃ name, typeChange? name (old.get? name) (new.get? name) = some c := by
  rw [typeChanges_eq]
  exact mem_tableChanges_iff (fun _ => rfl) ho hn

private theorem mem_typeChanges_name_iff (ho : old.keys.Nodup) (hn : new.keys.Nodup) {c : TypeChange} :
    c ∈ typeChanges old new ↔ typeChange? c.name (old.get? c.name) (new.get? c.name) = some c := by
  rw [mem_typeChanges_iff ho hn]
  constructor
  · rintro ⟨name, hc⟩
    rwa [name_typeChange? hc]
  · exact fun hc => ⟨c.name, hc⟩

theorem nodup_names_typeChanges (ho : old.keys.Nodup) (hn : new.keys.Nodup) :
    ((typeChanges old new).map TypeChange.name).Nodup := by
  rw [typeChanges_eq]
  exact nodup_tableChanges (fun _ _ _ _ h => name_typeChange? h) ho hn

theorem added_mem_typeChanges_iff (ho : old.keys.Nodup) (hn : new.keys.Nodup) {name : Text} :
    { name, kind := .added } ∈ typeChanges old new ↔ name ∈ new.keys ∧ name ∉ old.keys := by
  rw [mem_typeChanges_name_iff ho hn, ← get?_eq_none_iff, ← Table.has_iff, Table.has]
  cases old.get? name with
  | none => cases new.get? name <;> simp [typeChange?]
  | some o =>
    cases new.get? name with
    | none => simp [typeChange?]
    | some n => cases hchanges : declarationChanges o n <;> simp [typeChange?, hchanges]

theorem removed_mem_typeChanges_iff (ho : old.keys.Nodup) (hn : new.keys.Nodup) {name : Text} :
    { name, kind := .removed } ∈ typeChanges old new ↔ name ∈ old.keys ∧ name ∉ new.keys := by
  rw [mem_typeChanges_name_iff ho hn, ← get?_eq_none_iff, ← Table.has_iff, Table.has]
  cases old.get? name with
  | none => cases new.get? name <;> simp [typeChange?]
  | some o =>
    cases new.get? name with
    | none => simp [typeChange?]
    | some n => cases hchanges : declarationChanges o n <;> simp [typeChange?, hchanges]

/-- A change is a modification exactly when the name is declared on both sides with some differences, which are
its fields. -/
theorem modified_mem_typeChanges_iff (ho : old.keys.Nodup) (hn : new.keys.Nodup) {name : Text}
    {fields : List FieldChange} : { name, kind := .modified, fields } ∈ typeChanges old new ↔
      ∃ o ∈ old.get? name, ∃ n ∈ new.get? name, fields = declarationChanges o n ∧ fields ≠ [] := by
  rw [mem_typeChanges_name_iff ho hn]
  cases old.get? name with
  | none => cases new.get? name <;> simp [typeChange?]
  | some o =>
    cases new.get? name with
    | none => simp [typeChange?]
    | some n => cases hchanges : declarationChanges o n <;> simp +contextual [typeChange?, hchanges, eq_comm]

theorem fields_eq_nil_of_mem_typeChanges (ho : old.keys.Nodup) (hn : new.keys.Nodup) {c : TypeChange}
    (hc : c ∈ typeChanges old new) (hkind : c.kind ≠ .modified) : c.fields = [] := by
  obtain ⟨name, hc⟩ := (mem_typeChanges_iff ho hn).1 hc
  rcases typeChange?_cases hc with ⟨-, hc⟩ | hc
  · rw [hc]
  · exact absurd (congrArg TypeChange.kind hc) hkind

variable (hof : ∀ e ∈ old, e.2.fields.keys.Nodup) (hnf : ∀ e ∈ new, e.2.fields.keys.Nodup)

include hof hnf

private theorem typeChange?_eq_none_iff {name : Text} :
    typeChange? name (old.get? name) (new.get? name) = none ↔
      Option.Rel Declared.Agrees (old.get? name) (new.get? name) := by
  cases hold : old.get? name with
  | none => cases new.get? name <;> simp [typeChange?]
  | some o =>
    cases hnew : new.get? name with
    | none => simp [typeChange?]
    | some n =>
      have hagrees := declarationChanges_eq_nil_iff (hof _ (Table.mem_of_get? hold)) (hnf _ (Table.mem_of_get? hnew))
      rw [Option.rel_some_some, ← hagrees]
      cases hchanges : declarationChanges o n <;> simp [typeChange?, hchanges]

theorem typeChanges_eq_nil_iff (ho : old.keys.Nodup) (hn : new.keys.Nodup) :
    typeChanges old new = [] ↔ ∀ name, Option.Rel Declared.Agrees (old.get? name) (new.get? name) := by
  rw [typeChanges_eq, tableChanges_eq_nil_iff (fun _ => rfl) ho hn]
  exact forall_congr' fun name => typeChange?_eq_none_iff hof hnf

theorem exists_modified_mem_typeChanges_iff (ho : old.keys.Nodup) (hn : new.keys.Nodup) {name : Text} :
    (∃ fields, { name, kind := .modified, fields } ∈ typeChanges old new) ↔
      ∃ o ∈ old.get? name, ∃ n ∈ new.get? name, ¬o.Agrees n := by
  simp only [modified_mem_typeChanges_iff ho hn]
  constructor
  · rintro ⟨fields, o, hold, n, hnew, rfl, hne⟩
    have hagrees := declarationChanges_eq_nil_iff (hof _ (Table.mem_of_get? hold)) (hnf _ (Table.mem_of_get? hnew))
    exact ⟨o, hold, n, hnew, hagrees.not.1 hne⟩
  · rintro ⟨o, hold, n, hnew, hdiffer⟩
    have hagrees := declarationChanges_eq_nil_iff (hof _ (Table.mem_of_get? hold)) (hnf _ (Table.mem_of_get? hnew))
    exact ⟨_, o, hold, n, hnew, rfl, hagrees.not.2 hdiffer⟩

theorem listsDifferences_of_mem_typeChanges (ho : old.keys.Nodup) (hn : new.keys.Nodup) {c : TypeChange}
    (hc : c ∈ typeChanges old new) (hkind : c.kind = .modified) :
    ∃ o ∈ old.get? c.name, ∃ n ∈ new.get? c.name, ListsDifferences o n c.fields := by
  obtain ⟨name, kind, fields⟩ := c
  obtain rfl : kind = .modified := hkind
  obtain ⟨o, hold, n, hnew, rfl, -⟩ := (modified_mem_typeChanges_iff ho hn).1 hc
  exact ⟨o, hold, n, hnew,
    listsDifferences_declarationChanges (hof _ (Table.mem_of_get? hold)) (hnf _ (Table.mem_of_get? hnew))⟩

end Found

/-! ## Expected and existing types -/

/-- The changes of an existing text of types against expected ones are exact: at most one for each name, with a new
type for each expected name that the text does not declare, a removed one for each that only the text declares, and
a modified one for each of both whose declarations do not agree. A modified type lists the parts that differ, each
once, and nothing else. -/
theorem detectTypeChanges_exact {expected : Table Declared} (hn : expected.keys.Nodup)
    (hf : ∀ e ∈ expected, e.2.fields.keys.Nodup) (existing : Option Text) :
    let found := (existing.map declaredTypes).getD []
    let changes := detectTypeChanges expected existing
    (changes.map TypeChange.name).Nodup ∧
      (∀ name,
        ({ name, kind := .added } ∈ changes ↔ name ∈ expected.keys ∧ name ∉ found.keys) ∧
        ({ name, kind := .removed } ∈ changes ↔ name ∈ found.keys ∧ name ∉ expected.keys) ∧
        ((∃ fields, { name, kind := .modified, fields } ∈ changes) ↔
          ∃ o ∈ found.get? name, ∃ n ∈ expected.get? name, ¬o.Agrees n)) ∧
      (∀ c ∈ changes,
        (c.kind ≠ .modified → c.fields = []) ∧
        (c.kind = .modified →
          ∃ o ∈ found.get? c.name, ∃ n ∈ expected.get? c.name, ListsDifferences o n c.fields)) ∧
      (changes = [] ↔ ∀ name, Option.Rel Declared.Agrees (found.get? name) (expected.get? name)) := by
  intro found changes
  have ho : found.keys.Nodup := by
    cases existing with
    | none => exact List.nodup_nil
    | some t => exact Table.nodup_keys_ofEntries _
  have hof : ∀ e ∈ found, e.2.fields.keys.Nodup := by
    cases existing with
    | none => exact fun _ he => absurd he List.not_mem_nil
    | some t => exact fun _ he => nodup_fields_of_mem_declaredTypes he
  exact ⟨nodup_names_typeChanges ho hn,
    fun name => ⟨added_mem_typeChanges_iff ho hn, removed_mem_typeChanges_iff ho hn,
      exists_modified_mem_typeChanges_iff hof hf ho hn⟩,
    fun c hc => ⟨fields_eq_nil_of_mem_typeChanges ho hn hc, listsDifferences_of_mem_typeChanges hof hf ho hn hc⟩,
    typeChanges_eq_nil_iff hof hf ho hn⟩

/-- One type of each kind of change, and one that differs in formatting. -/
theorem detectTypeChanges_of_pets :
    let expected : Table Declared :=
      [("New".toList, .objectType []), ("Pet".toList, .interface [] [("id".toList, ⟨"number", false⟩)]),
        ("Same".toList, .typeAlias "Pet [ ]")]
    let t : Text := "interface Pet \x7b id: string \x7d\ntype Same = Pet[]\ntype Old = Pet"
    let changes := detectTypeChanges expected (some t)
    (changes.map TypeChange.name).Nodup ∧
      changes.map (fun c => (c.name, c.kind)) =
        [("New".toList, .added), ("Pet".toList, .modified), ("Old".toList, .removed)] ∧
      ∃ o ∈ (declaredTypes t).get? "Pet", ∃ n ∈ expected.get? "Pet",
        ListsDifferences o n
          [{ field := "id", kind := .modified, oldType := some "string", newType := some "number" }] := by
  intro expected t changes
  obtain ⟨hnames, -, hlisted, -⟩ := detectTypeChanges_exact (show expected.keys.Nodup by decide) (by decide) (some t)
  exact ⟨hnames, by decide,
    (hlisted
      { name := "Pet", kind := .modified
        fields := [{ field := "id", kind := .modified, oldType := some "string", newType := some "number" }] }
      (by decide)).2 rfl⟩

/-- What is extended can be a text that is all formatting, which still differs from extending nothing. -/
theorem detectTypeChanges_blank_heritage :
    let t : Text := "interface A extends ; \x7b\n\x7d"
    let o : Declared := .interface [";"] []
    let n : Declared := .interface [] []
    declaredTypes t = [("A".toList, o)] ∧
      normalizeType (Text.join ", " o.parents) = normalizeType (Text.join ", " n.parents) ∧
      o.fields = n.fields ∧ o.aliased? = n.aliased? ∧
      detectTypeChanges [("A".toList, n)] (some t) =
        [{ name := "A", kind := .modified
           fields := [{ field := "(extends)", kind := .removed, oldType := some ";" }] }] := by
  decide

end ClientGen
