import ClientGen.Proofs.Schema.Legible
import ClientGen.Proofs.TypeScript.TypesFile
/-!
# Schemas read back

What is read back of the types file of a group, told by the schemas and the parameters themselves: what
they extend, and one field for every property that is not excluded.
-/

namespace ClientGen

open Text Source

variable {settings : Settings}

/-! ## Schemas -/

namespace Schema

def declaredFields (settings : Settings) (required : List Text) (properties : List (Text × Schema)) :
    Table Field :=
  (kept settings properties).map fun p =>
    (p.1, ⟨collapse (p.2.type settings).render, p.1 ∉ required⟩)

/-- What is read back of a schema that was declared. -/
def declared (settings : Settings) (s : Schema) : Declared :=
  if s.allOf ≠ [] then
    let m := s.merged settings.displayName
    if m.parents ≠ [] ∧ m.properties = [] then .typeAlias (join " & " m.parents)
    else .interface m.parents (declaredFields settings m.required m.properties)
  else if s.enum ≠ [] then .typeAlias (TypeExpr.renderLiterals s.enum)
  else if s.isObject then
    .interface [] (declaredFields settings s.required s.properties ++
      ((s.indexType settings).map indexField).toList)
  else .typeAlias (s.type settings).render

theorem declaredMembers_eq_map (required : List Text) (properties : List (Text × Schema)) :
    declaredMembers settings required properties =
      (kept settings properties).map fun p =>
        ⟨p.2.comment, ⟨p.1, p.1 ∉ required, p.2.type settings⟩⟩ := rfl

private theorem fields_declaredMembers (required : List Text) (properties : List (Text × Schema)) :
    (declaredMembers settings required properties).map DeclaredMember.field =
      declaredFields settings required properties := by
  rw [declaredMembers_eq_map, List.map_map]
  rfl

private theorem render_intersection_named (names : List Text) :
    (TypeExpr.intersection (names.map .named)).render = join " & " names := by
  have hnames : (names.map TypeExpr.named).map TypeExpr.render = names := by
    rw [List.map_map]
    exact List.map_id names
  change join " & " (TypeExpr.renderAll (names.map .named)) = _
  rw [TypeExpr.renderAll_eq_map, hnames]

/-- How a schema is declared. -/
inductive DeclaredAs (settings : Settings) (name : Text) (s : Schema) : Declaration → Prop
  | parents (ha : s.allOf ≠ []) (hm : (s.merged settings.displayName).parents ≠ [] ∧
      (s.merged settings.displayName).properties = []) :
      DeclaredAs settings name s
        (.typeAlias s.comment name (.intersection ((s.merged settings.displayName).parents.map .named)))
  | merged (ha : s.allOf ≠ []) (hm : ¬((s.merged settings.displayName).parents ≠ [] ∧
      (s.merged settings.displayName).properties = [])) :
      DeclaredAs settings name s
        (.interface s.comment name (s.merged settings.displayName).parents
          (declaredMembers settings (s.merged settings.displayName).required
            (s.merged settings.displayName).properties) none)
  | enum (ha : s.allOf = []) (he : s.enum ≠ []) :
      DeclaredAs settings name s (.typeAlias s.comment name (.literals s.enum))
  | object (ha : s.allOf = []) (he : s.enum = []) (ho : s.isObject = true) :
      DeclaredAs settings name s
        (.interface s.comment name [] (declaredMembers settings s.required s.properties)
          (s.indexType settings))
  | other (ha : s.allOf = []) (he : s.enum = []) (ho : s.isObject = false) :
      DeclaredAs settings name s (.typeAlias s.comment name (s.type settings))

theorem declaredAs_declare (settings : Settings) (name : Text) (s : Schema) :
    DeclaredAs settings name s (s.declare settings name) := by
  unfold declare
  split
  · next ha =>
    have ha : s.allOf ≠ [] := by simpa using ha
    dsimp only
    split
    · next hm => exact .parents ha (by simpa using hm)
    · next hm => exact .merged ha (by simpa using hm)
  · next ha =>
    have ha : s.allOf = [] := by simpa using ha
    split
    · next he => exact .enum ha (by simpa using he)
    · next he =>
      have he : s.enum = [] := by simpa using he
      split
      · next ho => exact .object ha he ho
      · next ho => exact .other ha he (Bool.eq_false_iff.2 ho)

namespace DeclaredAs

variable {name : Text} {s : Schema} {d : Declaration}

theorem name_eq (h : DeclaredAs settings name s d) : d.name = name := by
  cases h <;> rfl

theorem comment_eq (h : DeclaredAs settings name s d) : d.comment = s.comment := by
  cases h <;> rfl

theorem declared_eq (h : DeclaredAs settings name s d) : d.declared = s.declared settings := by
  unfold Schema.declared
  cases h with
  | parents ha hm =>
    rw [if_pos ha]
    dsimp only
    rw [if_pos hm, Declaration.declared, render_intersection_named]
  | merged ha hm =>
    rw [if_pos ha]
    dsimp only
    rw [if_neg hm, Declaration.declared, fields_declaredMembers]
    exact congrArg _ (List.append_nil _)
  | enum ha he =>
    rw [if_neg (not_not.2 ha), if_pos he]
    rfl
  | object ha he ho =>
    rw [if_neg (not_not.2 ha), if_neg (not_not.2 he), if_pos ho, Declaration.declared,
      fields_declaredMembers]
  | other ha he ho =>
    rw [if_neg (not_not.2 ha), if_neg (not_not.2 he), if_neg (Bool.eq_false_iff.1 ho)]
    rfl

end DeclaredAs

theorem comment_open (s : Schema) : ∀ c ∈ s.comment, ¬"*/".toList <:+: c := by
  intro c hc
  obtain ⟨t, -, rfl⟩ := Option.map_eq_some_iff.1 hc
  exact commentText_open t

private theorem declaredMembers_legible {required : List Text} {properties : List (Text × Schema)}
    (hn : ∀ p ∈ properties, settings.excludes p.1 = false → IsPropertyName p.1)
    (hp : ∀ p ∈ properties, settings.excludes p.1 = false → p.2.IsLegible settings) :
    ∀ m ∈ declaredMembers settings required properties, m.IsLegible := by
  intro m hm
  obtain ⟨p, hmem, rfl⟩ := List.mem_map.1 hm
  obtain ⟨hmem, hkept⟩ := mem_kept.1 hmem
  exact ⟨p.2.comment_open, hn p hmem hkept, (hp p hmem hkept).type⟩

private theorem nodup_declaredMembers {required : List Text} {properties : List (Text × Schema)}
    (h : (properties.map Prod.fst).Nodup) :
    ((declaredMembers settings required properties).map (·.member.name)).Nodup := by
  rw [declaredMembers_eq_map, List.map_map]
  exact h.sublist (List.filter_sublist.map Prod.fst)

private theorem indexType_legible {s : Schema} (h : s.IsLegible settings) :
    ∀ type ∈ s.indexType settings, type.IsLegible := by
  intro type ht
  unfold indexType at ht
  split at ht
  · exact Option.some.inj ht ▸ .keyword .unknown
  · obtain ⟨a, ha, rfl⟩ := Option.map_eq_some_iff.1 ht
    obtain ⟨-, -, -, -, -, -, additional⟩ := h
    exact (additional a ha).type

private theorem head?_ne_of_isIdentifier {n : Text} (h : isIdentifier n = true) :
    n.head? ≠ some '\x7b' := by
  intro hc
  have hbrace := isIdentChar_of_mem h '\x7b' (List.mem_of_head? hc)
  exact absurd hbrace (by decide)

private theorem type_ends {s : Schema} (ha : s.allOf = []) (he : s.enum = []) (ho : s.isObject = false)
    (h : s.IsLegible settings) :
    (s.type settings).render.head? ≠ some '\x7b' ∨ (s.type settings).render.getLast? ≠ some '\x7d' := by
  obtain ⟨ref, -, -, -, -, -, -⟩ := h
  obtain ⟨ref?, allOf?, enum?, tag, items?, hasProperties, properties?, required, additional?, isOpen,
    description⟩ := s
  obtain ⟨rfl, rfl⟩ : allOf? = [] ∧ enum? = [] := ⟨ha, he⟩
  have hobject : ¬(tag = some "object".toList || hasProperties) = true := Bool.eq_false_iff.1 ho
  cases ref? with
  | some r => exact .inl (head?_ne_of_isIdentifier (ref r rfl))
  | none =>
    unfold Schema.type
    rw [if_neg (by decide), if_neg (by decide)]
    split
    · next k _ => exact .inl (by cases k <;> decide)
    split
    · exact .inr (by
        change (TypeExpr.render _ ++ ("[" ++ ['\x5d'])).getLast? ≠ _
        rw [← List.append_assoc, List.getLast?_concat]
        decide)
    · exact .inl (by decide)

theorem DeclaredAs.isLegible {name : Text} {s : Schema} {d : Declaration} (h : DeclaredAs settings name s d)
    (hs : s.IsLegible settings) (hn : isIdentifier name = true) (hd : (s.properties.map Prod.fst).Nodup) :
    d.IsLegible where
  name_identifier := h.name_eq.symm ▸ hn
  comment_open := h.comment_eq.symm ▸ s.comment_open
  body_legible := by
    cases h with
    | parents ha hm =>
      refine ⟨.intersection (by simpa using hm.1) fun e he => ?_, .inl ?_⟩
      · obtain ⟨p, hp, rfl⟩ := List.mem_map.1 he
        exact .named (hs.merged.parents p hp)
      · rw [render_intersection_named]
        obtain ⟨p, ps, hps⟩ := List.exists_cons_of_ne_nil hm.1
        have hp := hs.merged.parents p (hps ▸ List.mem_cons_self)
        rw [hps, head?_join (ne_nil_of_isIdentifier hp)]
        exact head?_ne_of_isIdentifier hp
    | merged ha hm =>
      exact ⟨hs.merged.parents, declaredMembers_legible hs.merged.names hs.merged.properties,
        nodup_declaredMembers hs.merged.distinct, by simp⟩
    | enum ha he =>
      obtain ⟨-, enum, -, -, -, -, -⟩ := hs
      exact ⟨.literals he enum, .inl (TypeExpr.head?_renderLiterals he enum)⟩
    | object ha he ho =>
      have hindex := indexType_legible hs
      obtain ⟨-, -, names, -, -, properties, -⟩ := hs
      exact ⟨by simp, declaredMembers_legible names properties, nodup_declaredMembers hd, hindex⟩
    | other ha he ho => exact ⟨hs.type, type_ends ha he ho hs⟩

end Schema

/-! ## Query parameters -/

/-- A parameter that is read back. -/
structure Parameter.IsLegible (p : Parameter) : Prop where
  name_plain : IsPropertyName p.name
  enum_legible : ∀ v ∈ p.enum, IsEnumValue v
  items_legible : ∀ items ∈ p.items.bind Schema.ofObject?, ∀ v ∈ items.enum, IsEnumValue v

theorem Parameter.type_legible {p : Parameter} (h : p.IsLegible) : p.type.IsLegible := by
  have hunknown : TypeExpr.unknown.IsLegible := .keyword .unknown
  unfold Parameter.type
  split
  · next hne => exact .literals (by simpa using hne) h.enum_legible
  split
  · exact .keyword _
  split
  · split
    · exact .array hunknown
    · next items hitems =>
      split
      · next hne => exact .array (.grouped (.literals (by simpa using hne) (h.items_legible items hitems)))
      · exact .array (.keyword _)
  · exact hunknown

/-- What is read back of query parameters. -/
def declaredParameters (settings : Settings) (parameters : List Parameter) : Table Field :=
  (parameters.filter (·.isDeclared settings)).map fun p => (p.name, ⟨collapse p.type.render, !p.isRequired⟩)

namespace Operation

/-- What is read back of the query parameters of an operation, if it has any. -/
def declaredParams? (settings : Settings) (o : Operation) : Option (Text × Declared) :=
  match o.paramsType with
  | some name =>
    if name = [] ∨ o.queryParams = [] then none
    else some (name, .interface [] (declaredParameters settings o.queryParams))
  | none => none

/-- An operation whose query parameters are read back. -/
structure HasLegibleParams (settings : Settings) (o : Operation) : Prop where
  name_identifier : ∀ name ∈ o.paramsType, name ≠ [] → isIdentifier name = true
  params_legible : ∀ p ∈ o.queryParams, p.isDeclared settings = true → p.IsLegible
  params_distinct : ((o.queryParams.filter (·.isDeclared settings)).map (·.name)).Nodup

theorem paramsDeclaration?_of_none {o : Operation} (h : o.paramsType = none) :
    o.paramsDeclaration? settings = none := by
  simp [paramsDeclaration?, h]

theorem paramsDeclaration?_of_some {o : Operation} {name : Text} (h : o.paramsType = some name) :
    o.paramsDeclaration? settings =
      if name = [] ∨ o.queryParams = [] then none
      else some (paramsDeclaration settings name o.queryParams) := by
  cases name with
  | nil => simp [paramsDeclaration?, h, Option.filter]
  | cons c cs => cases hq : o.queryParams <;> simp [paramsDeclaration?, h, hq, Option.filter]

private theorem paramsDeclaration?_declared (o : Operation) :
    (o.paramsDeclaration? settings).map (fun d => (d.name, d.declared)) = o.declaredParams? settings := by
  unfold declaredParams?
  cases h : o.paramsType with
  | none => rw [paramsDeclaration?_of_none h, Option.map_none]
  | some name =>
    rw [paramsDeclaration?_of_some h]
    dsimp only
    split
    · rfl
    · rw [Option.map_some, paramsDeclaration, Declaration.name, Declaration.declared, List.map_map]
      exact congrArg (fun fields => some (name, Declared.interface [] fields)) (List.append_nil _)

private theorem paramsDeclaration?_legible {o : Operation} (h : o.HasLegibleParams settings) {d : Declaration}
    (hd : o.paramsDeclaration? settings = some d) : d.IsLegible := by
  obtain ⟨name, hname⟩ : ∃ name, o.paramsType = some name := by
    cases hname : o.paramsType with
    | none =>
      rw [paramsDeclaration?_of_none hname] at hd
      cases hd
    | some name => exact ⟨name, rfl⟩
  rw [paramsDeclaration?_of_some hname] at hd
  split at hd
  · cases hd
  next hsome =>
  rw [not_or] at hsome
  obtain rfl := Option.some.inj hd
  refine ⟨h.name_identifier name hname hsome.1, by simp [paramsDeclaration, Declaration.comment],
    by simp, ?_, ?_, by simp⟩
  · intro m hm
    obtain ⟨p, hp, rfl⟩ := List.mem_map.1 hm
    obtain ⟨hp, hdeclared⟩ := List.mem_filter.1 hp
    have hlegible := h.params_legible p hp hdeclared
    refine ⟨?_, hlegible.name_plain, p.type_legible hlegible⟩
    intro c hc
    obtain ⟨t, -, rfl⟩ := Option.map_eq_some_iff.1 hc
    exact commentText_open t
  · rw [List.map_map]
    exact h.params_distinct

end Operation

/-! ## Types files -/

/-- A named type that is read back. -/
structure NamedType.IsLegible (settings : Settings) (t : NamedType) : Prop where
  name_identifier : isIdentifier t.name = true
  schema_legible : t.schema.IsLegible settings
  properties_distinct : (t.schema.properties.map Prod.fst).Nodup

/-- The types file of a group is read back with one entry for each type and each interface of query
parameters, in the order of the file. -/
theorem declaredTypes_renderTypesFile {types : List NamedType} {operations : List Operation}
    (ht : ∀ t ∈ uniqueByName types, t.IsLegible settings)
    (ho : ∀ o ∈ operations, o.HasLegibleParams settings)
    (hd : ((typesFileDeclarations settings types operations).map Declaration.name).Nodup) :
    declaredTypes (renderTypesFile settings types operations) =
      (uniqueByName types).map (fun t => (t.name, t.schema.declared settings)) ++
        operations.filterMap (·.declaredParams? settings) := by
  have hlegible : ∀ d ∈ typesFileDeclarations settings types operations, d.IsLegible := by
    intro d hmem
    rcases List.mem_append.1 hmem with hmem | hmem
    · obtain ⟨t, htypes, rfl⟩ := List.mem_map.1 hmem
      have h := ht t htypes
      exact (Schema.declaredAs_declare settings t.name t.schema).isLegible h.schema_legible h.name_identifier
        h.properties_distinct
    · obtain ⟨o, hoperations, hparams⟩ := List.mem_filterMap.1 hmem
      exact Operation.paramsDeclaration?_legible (ho o hoperations) hparams
  have htypes : (uniqueByName types).map ((fun d => (d.name, d.declared)) ∘
      fun t => t.schema.declare settings t.name) =
        (uniqueByName types).map fun t => (t.name, t.schema.declared settings) := by
    refine List.map_congr_left fun t _ => ?_
    have h := Schema.declaredAs_declare settings t.name t.schema
    rw [Function.comp_apply, h.name_eq, h.declared_eq]
  rw [renderTypesFile, declaredTypes_renderDeclarations hlegible hd, typesFileDeclarations, List.map_append,
    List.map_map, htypes, List.map_filterMap]
  congr 2
  funext o
  exact o.paramsDeclaration?_declared

/-- A comment that would end early, an enumeration with a quote and a comment opener in it, an excluded
property, an extended definition and an interface of query parameters. -/
theorem declaredTypes_of_item :
    let settings : Settings := { excludedFields := ["internal"] }
    let kinds : Schema := { Schema.empty with enum := [.scalar (.text "/* it's; "), .scalar .null] }
    let text : Schema := { Schema.empty with tag := some "string", description := some "ends */ 'here" }
    let item : Schema :=
      { Schema.empty with
        allOf := [{ Schema.empty with ref := some "#/definitions/base" }]
        properties := [("first-name", text), ("internal", text), ("kinds", { Schema.empty with
          tag := some "array", items := some kinds })]
        required := ["first-name"] }
    let types : List NamedType := [⟨"item", "Item", "common", item⟩, ⟨"kinds", "Kinds", "common", kinds⟩]
    let operation : Operation :=
      { paramsType := some "GetItemsParams", queryParams := [{ name := "page", tag := some "integer" }] }
    let declared : Table Declared :=
      [("Item".toList, .interface ["Base".toList] [("first-name".toList, ⟨"string", false⟩),
          ("kinds".toList, ⟨"'/* it\\'s; ' | null[]", true⟩)]),
        ("Kinds".toList, .typeAlias "'/* it\\'s; ' | null"),
        ("GetItemsParams".toList, .interface [] [("page".toList, ⟨"number", true⟩)])]
    declaredTypes (renderTypesFile settings types [operation]) = declared := by
  intro settings kinds text item types operation declared
  have hvalues : ∀ v ∈ kinds.enum, IsEnumValue v := by
    intro v hv
    rcases List.mem_cons.1 hv with rfl | hv
    · exact ⟨_, rfl, fun t ht => by cases ht; decide⟩
    · exact ⟨_, List.mem_singleton.1 hv, by simp⟩
  have hkinds : kinds.IsLegible settings :=
    .mk (by simp [kinds, Schema.empty]) hvalues (by simp [kinds, Schema.empty])
      (by simp [kinds, Schema.empty]) (by simp [kinds, Schema.empty]) (by simp [kinds, Schema.empty])
      (by simp [kinds, Schema.empty])
  have hplain (description tag : Option Text) (items : Option Schema)
      (hi : ∀ i ∈ items, i.IsLegible settings) :
      Schema.IsLegible settings
        { Schema.empty with description := description, tag := tag, items := items } :=
    .mk (by simp [Schema.empty]) (by simp [Schema.empty]) (by simp [Schema.empty]) (by simp [Schema.empty]) hi
      (by simp [Schema.empty]) (by simp [Schema.empty])
  have hbase : Schema.IsLegible settings { Schema.empty with ref := some "#/definitions/base" } :=
    .mk (fun r hr => by cases hr; decide) (by simp [Schema.empty]) (by simp [Schema.empty])
      (by simp [Schema.empty]) (by simp [Schema.empty]) (by simp [Schema.empty]) (by simp [Schema.empty])
  have hkept : ∀ p ∈ item.properties, settings.excludes p.1 = false →
      IsPropertyName p.1 ∧ p.2.IsLegible settings := by
    intro p hp hexcluded
    simp only [item, List.mem_cons, List.not_mem_nil, or_false] at hp
    rcases hp with rfl | rfl | rfl
    · exact ⟨⟨by decide, by decide, by decide⟩, hplain _ _ _ (by simp [Schema.empty])⟩
    · exact absurd hexcluded (by decide)
    · exact ⟨⟨by decide, by decide, by decide⟩, hplain _ _ _ fun i hi => by cases hi; exact hkinds⟩
  have hitem : item.IsLegible settings :=
    .mk (by simp [item, Schema.empty]) (by simp [item, Schema.empty])
      (fun p hp he => (hkept p hp he).1) (fun m hm => List.mem_singleton.1 hm ▸ hbase)
      (by simp [item, Schema.empty]) (fun p hp he => (hkept p hp he).2) (by simp [item, Schema.empty])
  have ht : ∀ t ∈ uniqueByName types, t.IsLegible settings := by
    have hunique : uniqueByName types = types := rfl
    rw [hunique]
    intro t hmem
    rcases List.mem_cons.1 hmem with rfl | hmem
    · exact ⟨by decide, hitem, by decide⟩
    · rw [List.mem_singleton.1 hmem]
      exact ⟨by decide, hkinds, by decide⟩
  have hpage : ∀ p ∈ operation.queryParams, p.IsLegible := by
    intro p hp
    rw [List.mem_singleton.1 hp]
    exact ⟨⟨by decide, by decide, by decide⟩, by simp, by simp⟩
  have ho : ∀ o ∈ [operation], o.HasLegibleParams settings := by
    intro o hmem
    rw [List.mem_singleton.1 hmem]
    exact ⟨fun name hname _ => by cases hname; decide, fun p hp _ => hpage p hp, by decide⟩
  rw [declaredTypes_renderTypesFile ht ho (by decide)]
  decide

end ClientGen
