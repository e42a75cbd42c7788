import ClientGen.Proofs.TypeScript.Members
import ClientGen.Schema.Declare
/-!
# Legible schemas

The type of a schema is legible when the names in the schema are and the values of its enumerations stand
on one line. Merging a composition brings in no other names.
-/

namespace ClientGen

open Text Source

namespace Schema

variable {settings : Settings}

/-- A schema whose references lead to declared names that are identifiers, whose enumerations hold scalars
on one line and whose properties have names that can be read back, here and in all its parts. -/
inductive IsLegible (settings : Settings) : Schema → Prop
  | mk {s : Schema}
    (ref : ∀ r ∈ s.ref, isIdentifier (settings.displayName (refName r)) = true)
    (enum : ∀ v ∈ s.enum, IsEnumValue v)
    (names : ∀ p ∈ s.properties, settings.excludes p.1 = false → IsPropertyName p.1)
    (allOf : ∀ m ∈ s.allOf, IsLegible settings m)
    (items : ∀ i ∈ s.items, IsLegible settings i)
    (properties : ∀ p ∈ s.properties, settings.excludes p.1 = false → IsLegible settings p.2)
    (additional : ∀ a ∈ s.additional, IsLegible settings a) : IsLegible settings s

/-! ## Types -/

/-- The properties that the settings do not exclude. -/
def kept (settings : Settings) (properties : List (Text × Schema)) : List (Text × Schema) :=
  properties.filter fun p => !settings.excludes p.1

theorem mem_kept {properties : List (Text × Schema)} {p : Text × Schema} :
    p ∈ kept settings properties ↔ p ∈ properties ∧ settings.excludes p.1 = false := by
  rw [kept, List.mem_filter, Bool.not_eq_true']

theorem typeOfAll_eq_map (ss : List Schema) : typeOfAll settings ss = ss.map (type settings) := by
  induction ss with
  | nil => rfl
  | cons s ss ih => rw [typeOfAll, ih, List.map_cons]

theorem typeOfOption_eq_map (s : Option Schema) : typeOfOption settings s = s.map (type settings) := by
  cases s <;> rfl

theorem typeOfMembers_eq_map (required : List Text) (properties : List (Text × Schema)) :
    typeOfMembers settings required properties =
      (kept settings properties).map fun p => ⟨p.1, p.1 ∉ required, p.2.type settings⟩ := by
  induction properties with
  | nil => rfl
  | cons p properties ih =>
    obtain ⟨name, s⟩ := p
    rw [typeOfMembers, ih]
    unfold kept
    rw [List.filter_cons]
    cases settings.excludes name <;> rfl

/-- The types that a schema may have. -/
inductive TypeShape (settings : Settings) (s : Schema) : TypeExpr → Prop
  | named {r : Text} (h : s.ref = some r) : TypeShape settings s (.named (settings.displayName (refName r)))
  | intersection (hr : s.ref = none) (h : s.allOf ≠ []) :
      TypeShape settings s (.intersection (s.allOf.map (type settings)))
  | literals (hr : s.ref = none) (h : s.enum ≠ []) : TypeShape settings s (.literals s.enum)
  | keyword (k : Keyword) : TypeShape settings s (.keyword k)
  | array (hr : s.ref = none) : TypeShape settings s (.array ((s.items.map (type settings)).getD .unknown))
  | object (hr : s.ref = none) : TypeShape settings s
      (.object ((kept settings s.properties).map fun p => ⟨p.1, p.1 ∉ s.required, p.2.type settings⟩))
  | noRecord : TypeShape settings s (.record .unknown)
  | record (hr : s.ref = none) : TypeShape settings s (.record ((s.additional.map (type settings)).getD .unknown))

theorem type_shape (settings : Settings) (s : Schema) : s.TypeShape settings (s.type settings) := by
  obtain ⟨ref, allOf, enum, tag, items, hasProperties, properties, required, additional, isOpen, description⟩ := s
  cases ref with
  | some r => exact .named rfl
  | none =>
    unfold Schema.type
    split
    · next hne =>
      rw [typeOfAll_eq_map]
      exact .intersection rfl (by simpa using hne)
    split
    · next hne => exact .literals rfl (by simpa using hne)
    split
    · exact .keyword _
    split
    · rw [typeOfOption_eq_map]
      exact .array rfl
    split
    · split
      · split
        · exact .noRecord
        · rw [typeOfMembers_eq_map]
          exact .object rfl
      · rw [typeOfOption_eq_map]
        exact .record rfl
    · exact .keyword _

private theorem getD_legible {t : Option TypeExpr} (h : ∀ e ∈ t, e.IsLegible) :
    (t.getD .unknown).IsLegible := by
  cases t with
  | none => exact .keyword .unknown
  | some e => exact h e rfl

theorem IsLegible.type {s : Schema} (h : s.IsLegible settings) : (s.type settings).IsLegible := by
  induction h with
  | @mk s ref enum names _ _ _ _ allOf items properties additional =>
    have hshape := type_shape settings s
    generalize s.type settings = e at hshape ⊢
    cases hshape with
    | named h => exact .named (ref _ h)
    | intersection _ hne =>
      refine .intersection (by simpa using hne) fun e he => ?_
      obtain ⟨m, hm, rfl⟩ := List.mem_map.1 he
      exact allOf m hm
    | literals _ hne => exact .literals hne enum
    | keyword k => exact .keyword k
    | array =>
      refine .array (getD_legible fun e he => ?_)
      obtain ⟨i, hi, rfl⟩ := Option.map_eq_some_iff.1 he
      exact items i hi
    | object =>
      refine .object (fun m hm => ?_) fun m hm => ?_
      · obtain ⟨p, hp, rfl⟩ := List.mem_map.1 hm
        obtain ⟨hp, hkept⟩ := mem_kept.1 hp
        exact (names p hp hkept).one_line
      · obtain ⟨p, hp, rfl⟩ := List.mem_map.1 hm
        obtain ⟨hp, hkept⟩ := mem_kept.1 hp
        exact properties p hp hkept
    | noRecord => exact .record (.keyword .unknown)
    | record =>
      refine .record (getD_legible fun e he => ?_)
      obtain ⟨a, ha, rfl⟩ := Option.map_eq_some_iff.1 he
      exact additional a ha

/-! ## Compositions -/

/-- A composition of legible schemas, as far as it is merged. -/
structure Merged.IsLegible (settings : Settings) (m : Merged) : Prop where
  parents : ∀ p ∈ m.parents, isIdentifier p = true
  names : ∀ p ∈ m.properties, settings.excludes p.1 = false → IsPropertyName p.1
  properties : ∀ p ∈ m.properties, settings.excludes p.1 = false → p.2.IsLegible settings
  distinct : m.properties.keys.Nodup

private theorem addProperties_legible {m : Merged} (hm : m.IsLegible settings) {s : Schema}
    (hs : s.IsLegible settings) : (m.addProperties s).IsLegible settings := by
  obtain ⟨-, -, names, -, -, properties, -⟩ := hs
  have hmem : ∀ p ∈ (m.addProperties s).properties, p ∈ s.properties ∨ p ∈ m.properties :=
    fun p hp => Table.mem_of_mem_putAll hp
  refine ⟨hm.parents, ?_, ?_, Table.nodup_keys_putAll hm.distinct⟩
  · intro p hp hkept
    rcases hmem p hp with hp | hp
    · exact names p hp hkept
    · exact hm.names p hp hkept
  · intro p hp hkept
    rcases hmem p hp with hp | hp
    · exact properties p hp hkept
    · exact hm.properties p hp hkept

/-- Merging a legible composition leaves identifiers to extend and legible properties. -/
theorem IsLegible.merged {s : Schema} (h : s.IsLegible settings) :
    (s.merged settings.displayName).IsLegible settings := by
  have hmembers : ∀ member ∈ s.allOf, member.IsLegible settings := by
    obtain ⟨-, -, -, allOf, -, -, -⟩ := h
    exact allOf
  refine addProperties_legible ?_ h
  refine List.foldlRecOn s.allOf _ ⟨by simp, by simp, by simp, List.nodup_nil⟩ fun m hm member hmem => ?_
  have hmember := hmembers member hmem
  split
  · next r hr =>
    obtain ⟨ref, -, -, -, -, -, -⟩ := hmember
    refine ⟨?_, hm.names, hm.properties, hm.distinct⟩
    intro p hp
    rcases List.mem_append.1 hp with hp | hp
    · exact hm.parents p hp
    · exact List.mem_singleton.1 hp ▸ ref r hr
  · exact addProperties_legible hm hmember

end Schema

end ClientGen
