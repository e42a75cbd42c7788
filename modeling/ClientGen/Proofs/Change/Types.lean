import ClientGen.Change.Basic
import ClientGen.Proofs.Text.Entries
import ClientGen.Proofs.Text.Lines
/-!
# Changes of types

A types file has no changes against what is declared in it.
-/

namespace ClientGen

open Text Source

private theorem gone_eq_nil {α : Type} (t : Table α) : (t.filter fun e => !t.has e.1) = [] := by
  apply List.filter_eq_nil_iff.2
  intro e he
  have hhas : t.has e.1 = true := Table.has_iff.2 (List.mem_map_of_mem he)
  simp [hhas]

theorem fieldChanges_self {fields : Table Field} (h : fields.keys.Nodup) : fieldChanges fields fields = [] := by
  have hpresent : ∀ e ∈ fields, fields.get? e.1 = some e.2 := fun e he => Table.get?_of_mem h he
  have hagrees (f : Field) : f.agrees f = true := by simp [Field.agrees]
  unfold fieldChanges
  rw [gone_eq_nil, List.map_nil, List.append_nil]
  apply List.filterMap_eq_nil_iff.2
  intro e he
  simp only [hpresent e he, hagrees, if_true]

private theorem textChange?_self (field : Text) (t : Option Text) : textChange? field t t = none := by
  cases t with
  | none => rfl
  | some t => exact if_pos rfl

theorem declarationChanges_self {d : Declared} (h : d.fields.keys.Nodup) : declarationChanges d d = [] := by
  unfold declarationChanges
  rw [fieldChanges_self h, textChange?_self, textChange?_self]
  rfl

theorem typeChanges_self {t : Table Declared} (hn : t.keys.Nodup) (hf : ∀ e ∈ t, e.2.fields.keys.Nodup) :
    typeChanges t t = [] := by
  have hpresent : ∀ e ∈ t, t.get? e.1 = some e.2 := fun e he => Table.get?_of_mem hn he
  unfold typeChanges
  rw [gone_eq_nil, List.map_nil, List.append_nil]
  apply List.filterMap_eq_nil_iff.2
  intro e he
  simp only [hpresent e he, declarationChanges_self (hf e he)]

namespace Source

private theorem nodup_members (body : Text) : (members body).keys.Nodup := Table.nodup_keys_ofEntries _

private theorem nodup_interfaceAt {t : Text} {d : Declared} (h : (interfaceAt t).1 = some d) :
    d.fields.keys.Nodup := by
  unfold interfaceAt at h
  dsimp only at h
  split at h
  · cases h
  split at h
  · cases h
  · cases h
    exact nodup_members _

private theorem nodup_aliasOf (type : Text) : (aliasOf type).fields.keys.Nodup := by
  unfold aliasOf
  split
  · exact nodup_members _
  · exact List.nodup_nil

private theorem nodup_aliasAt {t : Text} {d : Declared} (h : (aliasAt t).1 = some d) : d.fields.keys.Nodup := by
  unfold aliasAt at h
  split at h
  · obtain rfl := Option.some.inj h
    exact nodup_aliasOf _
  · cases h

private theorem nodup_declarationAt {before : Char} {t : Text} {n : Nat} {e : Text × Declared}
    (h : declarationAt before t = some (some e, n)) : e.2.fields.keys.Nodup := by
  unfold declarationAt at h
  split at h
  · cases h
  obtain ⟨head, -, hfound⟩ := Option.map_eq_some_iff.1 h
  cases hkind : head.isInterface with
  | true =>
    simp only [hkind, if_true] at hfound
    obtain ⟨d, hd, rfl⟩ := Option.map_eq_some_iff.1 (Prod.mk.inj hfound).1
    exact nodup_interfaceAt hd
  | false =>
    simp only [hkind, Bool.false_eq_true, if_false] at hfound
    obtain ⟨d, hd, rfl⟩ := Option.map_eq_some_iff.1 (Prod.mk.inj hfound).1
    exact nodup_aliasAt hd

/-- The members of what is declared in a text have distinct names. -/
theorem nodup_fields_of_mem_declaredTypes {t : Text} {e : Text × Declared} (h : e ∈ declaredTypes t) :
    e.2.fields.keys.Nodup := by
  rcases Table.mem_of_mem_putAll h with h | h
  · obtain ⟨found, hmem, hfound⟩ := List.mem_filterMap.1 h
    obtain rfl : found = some e := hfound
    obtain ⟨before, s, n, hstep⟩ := step_of_mem_collect hmem
    exact nodup_declarationAt hstep
  · cases h

end Source

/-- There are no changes between a types file and what is declared in it. -/
theorem detectTypeChanges_self (t : Text) : detectTypeChanges (declaredTypes t) (some t) = [] :=
  typeChanges_self (Table.nodup_keys_ofEntries _) fun _ he => nodup_fields_of_mem_declaredTypes he

end ClientGen
