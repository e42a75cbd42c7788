import ClientGen.Proofs.Change.Differences
import ClientGen.Proofs.Schema.Declared
import ClientGen.Proofs.TypeScript.NormalUnions
/-!
# Changed enumerations

The enumeration of a type, or of a property, is changed between two types files. The change is found exactly if the
values differ in more than blanks, and spaces beside punctuation.
-/

namespace ClientGen

open Text Source

/-! ## One declaration against another -/

private theorem declaredTypes_singleton {d : Declaration} (h : d.IsLegible) :
    declaredTypes (renderDeclarations [d]) = [(d.name, d.declared)] :=
  declaredTypes_renderDeclarations (by simpa using h) (List.nodup_singleton d.name)

theorem Declaration.IsLegible.nodup_fields {d : Declaration} (h : d.IsLegible) : d.declared.fields.keys.Nodup := by
  have hmem : (d.name, d.declared) ∈ declaredTypes (renderDeclarations [d]) := by
    rw [declaredTypes_singleton h]
    exact List.mem_singleton_self _
  exact nodup_fields_of_mem_declaredTypes hmem

theorem detectTypeChanges_renderDeclarations_eq_nil_iff {d d' : Declaration} (h : d.IsLegible) (h' : d'.IsLegible)
    (hname : d'.name = d.name) :
    detectTypeChanges (declaredTypes (renderDeclarations [d'])) (some (renderDeclarations [d])) = [] ↔
      d.declared.Agrees d'.declared := by
  have hfields {d : Declaration} (h : d.IsLegible) : ∀ e ∈ [(d.name, d.declared)], e.2.fields.keys.Nodup := by
    simpa using h.nodup_fields
  have hone {d : Declaration} : (Table.keys [(d.name, d.declared)]).Nodup := List.nodup_singleton _
  change typeChanges (declaredTypes (renderDeclarations [d])) (declaredTypes (renderDeclarations [d'])) = [] ↔ _
  rw [declaredTypes_singleton h, declaredTypes_singleton h',
    typeChanges_eq_nil_iff (hfields h) (hfields h') hone hone, hname]
  constructor
  · intro hagree
    simpa [Table.get?] using hagree d.name
  · intro hagree name
    by_cases hn : d.name = name <;> simp [Table.get?, hn, hagree]

/-! ## One part against another -/

private theorem agrees_refl (f : Option Field) : Option.Rel Field.Agrees f f := by
  cases f with
  | none => exact .none
  | some f => exact .some ⟨rfl, rfl⟩

theorem agrees_typeAlias_iff {t u : Text} :
    (Declared.typeAlias t).Agrees (.typeAlias u) ↔ normalizeType t = normalizeType u := by
  constructor
  · intro h
    simpa [Declared.part?, Declared.aliased?, Field.Agrees] using h .aliased
  · intro h p
    cases p with
    | aliased => exact .some ⟨rfl, h⟩
    | field name => exact agrees_refl none
    | parents => exact agrees_refl none

private theorem get?_append_cons_of_ne {α : Type} {key name : Text} (h : name ≠ key) (a b : Table α) (value : α) :
    Table.get? key (a ++ (name, value) :: b) = Table.get? key (a ++ b) := by
  induction a with
  | nil => exact if_neg h
  | cons e a ih =>
    obtain ⟨k, v⟩ := e
    rw [List.cons_append, List.cons_append, Table.get?, Table.get?, ih]

theorem agrees_interface_iff {parents : List Text} {a b : Table Field} {name : Text} {f g : Field}
    (h : (Table.keys (a ++ (name, f) :: b)).Nodup) :
    (Declared.interface parents (a ++ (name, f) :: b)).Agrees (.interface parents (a ++ (name, g) :: b)) ↔
      f.Agrees g := by
  have hkeys : Table.keys (a ++ (name, g) :: b) = Table.keys (a ++ (name, f) :: b) := by simp [Table.keys]
  have hf : Table.get? name (a ++ (name, f) :: b) = some f := Table.get?_of_mem h (by simp)
  have hg : Table.get? name (a ++ (name, g) :: b) = some g := Table.get?_of_mem (hkeys ▸ h) (by simp)
  constructor
  · intro hagree
    have hname := hagree (.field name)
    simpa [Declared.part?, Declared.fields, hf, hg] using hname
  · intro hagree p
    cases p with
    | field key =>
      by_cases hkey : name = key
      · subst hkey
        simpa [Declared.part?, Declared.fields, hf, hg] using hagree
      · simp only [Declared.part?, Declared.fields, get?_append_cons_of_ne hkey]
        exact agrees_refl _
    | parents => exact agrees_refl _
    | aliased => exact agrees_refl none

/-! ## Enumerations -/

/-- An interface with the type of one member left open. -/
structure OpenInterface where
  comment : Option Text
  name : Text
  parents : List Text
  before : List DeclaredMember
  memberComment : Option Text
  property : Text
  isOptional : Bool
  after : List DeclaredMember
  index : Option TypeExpr

namespace OpenInterface

def member (i : OpenInterface) (type : TypeExpr) : DeclaredMember :=
  ⟨i.memberComment, ⟨i.property, i.isOptional, type⟩⟩

/-- The interface with a type of the open member. -/
def fill (i : OpenInterface) (type : TypeExpr) : Declaration :=
  .interface i.comment i.name i.parents (i.before ++ i.member type :: i.after) i.index

theorem isLegible_fill {i : OpenInterface} {type other : TypeExpr} (h : (i.fill type).IsLegible)
    (ho : other.IsLegible) : (i.fill other).IsLegible := by
  obtain ⟨hname, hcomment, hparents, hmembers, hdistinct, hindex⟩ := h
  refine ⟨hname, hcomment, hparents, fun m hm => ?_, ?_, hindex⟩
  · rcases List.mem_append.1 hm with hm | hm
    · exact hmembers m (List.mem_append_left _ hm)
    rcases List.mem_cons.1 hm with rfl | hm
    · obtain ⟨hc, hn, -⟩ := hmembers (i.member type) (by simp)
      exact ⟨hc, hn, ho⟩
    · exact hmembers m (List.mem_append_right _ (List.mem_cons_of_mem _ hm))
  · simpa [member] using hdistinct

end OpenInterface

namespace NamedType

def withEnum (t : NamedType) (values : List Text) : NamedType :=
  { t with schema := { t.schema with enum := textLiterals values } }

end NamedType

/-- The changes that are found when the types file of one type is written anew for another. -/
def changesOfType (settings : Settings) (old new : NamedType) : List TypeChange :=
  detectTypeChanges (declaredTypes (renderTypesFile settings [new] [])) (some (renderTypesFile settings [old] []))

private theorem renderTypesFile_singleton (settings : Settings) (t : NamedType) :
    renderTypesFile settings [t] [] = renderDeclarations [t.schema.declare settings t.name] := rfl

private theorem isEnumValue_of_mem {vs : List Text} (h : ∀ v ∈ vs, '\n' ∉ v) :
    ∀ v ∈ textLiterals vs, IsEnumValue v := by
  intro v hv
  obtain ⟨t, ht, rfl⟩ := List.mem_map.1 hv
  exact ⟨_, rfl, fun u hu => by cases hu; exact h t ht⟩

private theorem isLegible_textLiterals {vs : List Text} (hv : vs ≠ []) (h : ∀ v ∈ vs, '\n' ∉ v) :
    (TypeExpr.literals (textLiterals vs)).IsLegible :=
  .literals (mt List.map_eq_nil_iff.1 hv) (isEnumValue_of_mem h)

section Changed

variable {settings : Settings} {vs ws : List Text} (hv : vs ≠ []) (hw : ws ≠ []) (hvl : ∀ v ∈ vs, '\n' ∉ v)
  (hwl : ∀ w ∈ ws, '\n' ∉ w)

include hv hw hvl hwl

theorem changesOfType_withEnum_eq_nil_iff {t : NamedType} (hn : isIdentifier t.name = true) (ha : t.schema.allOf = []) :
    changesOfType settings (t.withEnum vs) (t.withEnum ws) = [] ↔ vs.map loosened = ws.map loosened := by
  have hdeclare {us : List Text} (hu : us ≠ []) : (t.withEnum us).schema.declare settings t.name =
      .typeAlias t.schema.comment t.name (.literals (textLiterals us)) := by
    have hne : textLiterals us ≠ [] := mt List.map_eq_nil_iff.1 hu
    simp [NamedType.withEnum, Schema.declare, ha, hne, Schema.comment]
  have hlegible {us : List Text} (hu : us ≠ []) (hul : ∀ u ∈ us, '\n' ∉ u) :
      (Declaration.typeAlias t.schema.comment t.name (.literals (textLiterals us))).IsLegible :=
    ⟨hn, t.schema.comment_open, isLegible_textLiterals hu hul,
      .inl (TypeExpr.head?_renderLiterals (mt List.map_eq_nil_iff.1 hu) (isEnumValue_of_mem hul))⟩
  have hfile {us : List Text} (hu : us ≠ []) : renderTypesFile settings [t.withEnum us] [] =
      renderDeclarations [.typeAlias t.schema.comment t.name (.literals (textLiterals us))] :=
    congrArg (fun d => renderDeclarations [d]) (hdeclare hu)
  rw [changesOfType, hfile hv, hfile hw,
    detectTypeChanges_renderDeclarations_eq_nil_iff (hlegible hv hvl) (hlegible hw hwl) rfl]
  exact agrees_typeAlias_iff.trans (normalizeType_renderLiterals_eq_iff hv hw)

theorem changesOfType_fill_eq_nil_iff {old new : NamedType} {i : OpenInterface}
    (ho : old.schema.declare settings old.name = i.fill (.literals (textLiterals vs)))
    (hn : new.schema.declare settings new.name = i.fill (.literals (textLiterals ws)))
    (hi : (i.fill .unknown).IsLegible) :
    changesOfType settings old new = [] ↔ vs.map loosened = ws.map loosened := by
  have hlegible {us : List Text} (hu : us ≠ []) (hul : ∀ u ∈ us, '\n' ∉ u) :
      (i.fill (.literals (textLiterals us))).IsLegible :=
    i.isLegible_fill hi (isLegible_textLiterals hu hul)
  have hdeclared (type : TypeExpr) : (i.fill type).declared =
      .interface i.parents (i.before.map DeclaredMember.field ++
        (i.property, ⟨collapse type.render, i.isOptional⟩) ::
          (i.after.map DeclaredMember.field ++ (i.index.map indexField).toList)) := by
    simp [OpenInterface.fill, OpenInterface.member, Declaration.declared, DeclaredMember.field]
  have hnormal {us : List Text} (hu : us ≠ []) :
      normalizeType (collapse (TypeExpr.literals (textLiterals us)).render) =
        normalizeType (TypeExpr.renderLiterals (textLiterals us)) := by
    rw [normalizeType, normalizeType]
    exact congrArg _ (congrArg _ (collapse_collapse (getLast?_renderLiterals hu)))
  have hdistinct := (hlegible hv hvl).nodup_fields
  rw [hdeclared] at hdistinct
  rw [changesOfType, renderTypesFile_singleton, renderTypesFile_singleton, ho, hn,
    detectTypeChanges_renderDeclarations_eq_nil_iff (hlegible hv hvl) (hlegible hw hwl) rfl, hdeclared, hdeclared,
    agrees_interface_iff hdistinct, ← normalizeType_renderLiterals_eq_iff hv hw, Field.Agrees, hnormal hv, hnormal hw]
  exact and_iff_right rfl

end Changed

theorem changesOfType_withEnum_ne_nil {settings : Settings} {t : NamedType} {vs ws : List Text} (hv : vs ≠ [])
    (hw : ws ≠ []) (hvb : ∀ v ∈ vs, ∀ c ∈ v, isBlank c = false) (hwb : ∀ w ∈ ws, ∀ c ∈ w, isBlank c = false)
    (hn : isIdentifier t.name = true) (ha : t.schema.allOf = []) (hne : vs ≠ ws) :
    changesOfType settings (t.withEnum vs) (t.withEnum ws) ≠ [] := by
  have hline {us : List Text} (h : ∀ u ∈ us, ∀ c ∈ u, isBlank c = false) : ∀ u ∈ us, '\n' ∉ u :=
    fun u hu hl => absurd (h u hu '\n' hl) (by decide)
  have hloosened {us : List Text} (h : ∀ u ∈ us, ∀ c ∈ u, isBlank c = false) : us.map loosened = us :=
    (List.map_congr_left fun u hu => loosened_of_noBlank (h u hu)).trans (List.map_id us)
  rwa [ne_eq, changesOfType_withEnum_eq_nil_iff hv hw (hline hvb) (hline hwb) hn ha, hloosened hvb, hloosened hwb]

/-- A changed enumeration of texts, of a type or of a member of an interface, is found exactly if the texts differ when
they are loosened. -/
theorem enum_change_found_iff (settings : Settings) {vs ws : List Text} (hv : vs ≠ []) (hw : ws ≠ [])
    (hvl : ∀ v ∈ vs, '\n' ∉ v) (hwl : ∀ w ∈ ws, '\n' ∉ w) :
    (∀ t : NamedType, isIdentifier t.name = true → t.schema.allOf = [] →
      (changesOfType settings (t.withEnum vs) (t.withEnum ws) ≠ [] ↔ vs.map loosened ≠ ws.map loosened)) ∧
      ∀ (old new : NamedType) (i : OpenInterface),
        old.schema.declare settings old.name = i.fill (.literals (textLiterals vs)) →
        new.schema.declare settings new.name = i.fill (.literals (textLiterals ws)) →
        (i.fill .unknown).IsLegible →
        (changesOfType settings old new ≠ [] ↔ vs.map loosened ≠ ws.map loosened) :=
  ⟨fun _ hn ha => (changesOfType_withEnum_eq_nil_iff hv hw hvl hwl hn ha).not,
    fun _ _ _ ho hn hi => (changesOfType_fill_eq_nil_iff hv hw hvl hwl ho hn hi).not⟩

/-- The definition of a lamp, whose mode is one of some texts. -/
private def lamp (modes : List Text) : NamedType where
  definition := "lamp"
  name := "Lamp"
  module := "common"
  schema := { Schema.empty with
    tag := some "object"
    properties := [("mode", { Schema.empty with enum := textLiterals modes })] }

private def mode : NamedType := ⟨"mode", "Mode", "common", Schema.empty⟩

theorem enum_change_found_of_lamp :
    changesOfType {} (mode.withEnum ["on", "off"]) (mode.withEnum ["on"]) ≠ [] ∧
      changesOfType {} (lamp ["on", "off"]) (lamp ["on"]) ≠ [] := by
  have hold : (["on", "off"] : List Text) ≠ [] := List.cons_ne_nil _ _
  have hnew : (["on"] : List Text) ≠ [] := List.cons_ne_nil _ _
  obtain ⟨halias, hmember⟩ := enum_change_found_iff {} hold hnew (by decide) (by decide)
  refine ⟨(halias mode (by decide) rfl).2 (by decide), ?_⟩
  let i : OpenInterface := ⟨none, "Lamp", [], [], none, "mode", true, [], none⟩
  have hi : (i.fill .unknown).IsLegible := by
    refine ⟨by decide, by simp [i, OpenInterface.fill, Declaration.comment], by simp [i], fun m hm => ?_, by decide,
      by simp [i]⟩
    obtain rfl := List.mem_singleton.1 hm
    exact ⟨by simp [i, OpenInterface.member], ⟨by decide, by decide, by decide⟩, .keyword .unknown⟩
  exact (hmember (lamp ["on", "off"]) (lamp ["on"]) i rfl rfl hi).2 (by decide)

/-- Blanks in a value go unnoticed, and spaces beside punctuation. -/
theorem enum_change_missed :
    changesOfType {} (mode.withEnum ["a b"]) (mode.withEnum ["a  b"]) = [] ∧
      changesOfType {} (lamp ["a, b"]) (lamp ["a,b"]) = [] := by
  decide

end ClientGen
