import ClientGen.Proofs.Schema.Names
/-!
# Schemas in place and by name

A schema is written in place, as a type, or by name, as a declaration. Both say something of an object: the properties
it has, the definitions it extends and the type of the values under other keys. What each of them says is told here by
the schema, and with it where the two differ.
-/

namespace ClientGen

open Text

/-- What is said of an object at its top level. -/
inductive Trait where
  | property (name : Text)
  | parent (name : Text)
  /-- The values under other keys are of a type. -/
  | index (values : TypeExpr)

mutual

/-- What a type expression says of an object. The members of an intersection say it together. -/
def TypeExpr.traits : TypeExpr → List Trait
  | .named name => [.parent name]
  | .intersection members => traitsOfAll members
  | .grouped inner => traits inner
  | .object members => members.map fun m => .property m.name
  | .record values => [.index values]
  | .keyword _ | .literals _ | .array _ => []
termination_by structural e => e

def TypeExpr.traitsOfAll : List TypeExpr → List Trait
  | [] => []
  | e :: es => traits e ++ traitsOfAll es
termination_by structural es => es

end

/-- What a declaration says of an object. -/
def Declaration.traits : Declaration → List Trait
  | .interface _ _ parents members index =>
    members.map (fun m => .property m.member.name) ++ parents.map .parent ++ index.toList.map .index
  | .typeAlias _ _ type => type.traits

namespace Schema

variable {settings : Settings} {s : Schema} {t : Trait} {name : Text}

/-- The names of the properties that the settings do not exclude. -/
def keptNames (settings : Settings) (s : Schema) : List Text := (kept settings s.properties).map Prod.fst

theorem mem_map_kept {properties : List (Text × Schema)} :
    name ∈ (kept settings properties).map Prod.fst ↔
      name ∈ properties.map Prod.fst ∧ settings.excludes name = false := by
  constructor
  · intro h
    obtain ⟨p, hp, rfl⟩ := List.mem_map.1 h
    obtain ⟨hp, hkept⟩ := mem_kept.1 hp
    exact ⟨List.mem_map_of_mem hp, hkept⟩
  · rintro ⟨h, hkept⟩
    obtain ⟨p, hp, rfl⟩ := List.mem_map.1 h
    exact List.mem_map_of_mem (mem_kept.2 ⟨hp, hkept⟩)

/-! ## Types in place -/

/-- Whether the type of a schema has room for its properties: it is an object, and neither a reference nor a
composition, an enumeration, a scalar or an array. -/
def showsProperties (s : Schema) : Bool :=
  s.ref.isNone && s.allOf.isEmpty && s.enum.isEmpty && (Keyword.ofTag? s.tag).isNone && !s.isTagged "array" &&
    s.isObject

theorem showsProperties_iff :
    s.showsProperties = true ↔ s.ref = none ∧ s.allOf = [] ∧ s.enum = [] ∧ Keyword.ofTag? s.tag = none ∧
      s.isTagged "array" = false ∧ s.isObject = true := by
  simp [showsProperties, and_assoc]

/-- The type of the values of an object of which no property is shown. -/
def recordType (settings : Settings) (s : Schema) : TypeExpr :=
  if s.properties = [] then (s.additional.map (type settings)).getD .unknown else .unknown

/-- What the type of a schema says of an object: at a reference its name, in a composition what its members say, and
elsewhere the properties that are kept or, if there is none, the type of all values. -/
inductive Shows (settings : Settings) : Schema → Trait → Prop
  | parent {s : Schema} {ref : Text} (h : s.ref = some ref) :
    Shows settings s (.parent (settings.displayName (refName ref)))
  | member {s m : Schema} {t : Trait} (hr : s.ref = none) (hm : m ∈ s.allOf) (h : Shows settings m t) :
    Shows settings s t
  | property {s : Schema} {name : Text} (hs : s.showsProperties = true) (hn : name ∈ s.keptNames settings) :
    Shows settings s (.property name)
  | index {s : Schema} (hs : s.showsProperties = true) (hn : s.keptNames settings = []) :
    Shows settings s (.index (s.recordType settings))

private theorem traitsOfAll_eq_flatMap (es : List TypeExpr) : TypeExpr.traitsOfAll es = es.flatMap TypeExpr.traits := by
  induction es with
  | nil => rfl
  | cons e es ih => rw [TypeExpr.traitsOfAll, ih, List.flatMap_cons]

theorem type_of_ref {ref : Text} (h : s.ref = some ref) :
    s.type settings = .named (settings.displayName (refName ref)) := by
  cases s
  simp only at h
  subst h
  rfl

theorem type_of_no_ref (h : s.ref = none) :
    s.type settings =
      if s.allOf ≠ [] then .intersection (s.allOf.map (type settings))
      else if s.enum ≠ [] then .literals s.enum
      else
        match Keyword.ofTag? s.tag with
        | some k => .keyword k
        | none =>
          if s.isTagged "array" then .array ((s.items.map (type settings)).getD .unknown)
          else if s.isObject then
            if s.keptNames settings = [] then .record (s.recordType settings)
            else .object ((kept settings s.properties).map fun p => ⟨p.1, p.1 ∉ s.required, p.2.type settings⟩)
          else .unknown := by
  have hfull {α : Type} (l : List α) : (!l.isEmpty) = true ↔ l ≠ [] := by simp
  obtain ⟨ref, allOf, enum, tag, items, hasProperties, properties, required, additional, isOpen, description⟩ := s
  obtain rfl : ref = none := h
  conv_lhs => unfold type
  simp only [hfull, typeOfAll_eq_map, typeOfOption_eq_map, typeOfMembers_eq_map, isTagged, isObject, recordType,
    keptNames, decide_eq_true_eq]
  cases Keyword.ofTag? tag with
  | some k => rfl
  | none =>
    cases properties with
    | nil => rfl
    | cons p ps => cases kept settings (p :: ps) <;> rfl

private theorem traits_of_other (hr : s.ref = none) (ha : s.allOf = []) (h : s.showsProperties = false) :
    (s.type settings).traits = [] := by
  rw [type_of_no_ref hr, if_neg (not_not.2 ha)]
  split
  · rfl
  next he =>
  split
  · rfl
  next hk =>
  split
  · rfl
  next harray =>
  split
  · next hobject =>
    have hshows := showsProperties_iff.2 ⟨hr, ha, not_not.1 he, hk, Bool.eq_false_iff.2 harray, hobject⟩
    rw [hshows] at h
    cases h
  · rfl

private theorem traits_of_showsProperties (h : s.showsProperties = true) :
    (s.type settings).traits =
      if s.keptNames settings = [] then [.index (s.recordType settings)] else (s.keptNames settings).map .property := by
  obtain ⟨hr, ha, he, hk, harray, hobject⟩ := showsProperties_iff.1 h
  rw [type_of_no_ref hr, if_neg (not_not.2 ha), if_neg (not_not.2 he), hk]
  dsimp only
  rw [if_neg (Bool.eq_false_iff.1 harray), if_pos hobject]
  split
  · rfl
  · rw [TypeExpr.traits, keptNames, List.map_map, List.map_map]
    rfl

private theorem traits_of_composition (hr : s.ref = none) (ha : s.allOf ≠ []) :
    (s.type settings).traits = s.allOf.flatMap fun m => (m.type settings).traits := by
  rw [type_of_no_ref hr, if_pos ha, TypeExpr.traits, traitsOfAll_eq_flatMap, List.flatMap_map]

theorem mem_traits_type_iff : t ∈ (s.type settings).traits ↔ s.Shows settings t := by
  -- only a composition shows what its members do, and those are parts of it
  induction s using partInduction with
  | h s ih =>
    cases hr : s.ref with
    | some ref =>
      rw [type_of_ref hr, TypeExpr.traits, List.mem_singleton]
      constructor
      · rintro rfl
        exact .parent hr
      · intro h
        cases h with
        | parent h => rw [Option.some.inj (hr.symm.trans h)]
        | member h => simp [hr] at h
        | property hs => simp [(showsProperties_iff.1 hs).1] at hr
        | index hs => simp [(showsProperties_iff.1 hs).1] at hr
    | none =>
      by_cases ha : s.allOf = []
      · cases hs : s.showsProperties with
        | true =>
          rw [traits_of_showsProperties hs]
          constructor
          · intro h
            split at h
            · next hn =>
              rw [List.mem_singleton.1 h]
              exact .index hs hn
            · obtain ⟨n, hn, rfl⟩ := List.mem_map.1 h
              exact .property hs hn
          · intro h
            cases h with
            | parent h => simp [hr] at h
            | member _ hm => simp [ha] at hm
            | property _ hn =>
              rw [if_neg (List.ne_nil_of_mem hn)]
              exact List.mem_map_of_mem hn
            | index _ hn =>
              rw [if_pos hn]
              exact List.mem_singleton_self _
        | false =>
          rw [traits_of_other hr ha hs]
          constructor
          · simp
          · intro h
            cases h with
            | parent h => simp [hr] at h
            | member _ hm => simp [ha] at hm
            | property h => simp [hs] at h
            | index h => simp [hs] at h
      · rw [traits_of_composition hr ha, List.mem_flatMap]
        have hpart {m : Schema} (hm : m ∈ s.allOf) : m ∈ s.parts := mem_parts.2 (.inr (.inr (.inl hm)))
        constructor
        · rintro ⟨m, hm, h⟩
          exact .member hr hm ((ih m (hpart hm)).1 h)
        · intro h
          cases h with
          | parent h => simp [hr] at h
          | member _ hm h => exact ⟨_, hm, (ih _ (hpart hm)).2 h⟩
          | property h => exact absurd (showsProperties_iff.1 h).2.1 ha
          | index h => exact absurd (showsProperties_iff.1 h).2.1 ha

/-! ## Merged compositions -/

/-- The merged composition with a member. -/
def Merged.addMember (displayName : Text → Text) (m : Merged) (member : Schema) : Merged :=
  match member.ref with
  | some ref => { m with parents := m.parents ++ [displayName (refName ref)] }
  | none => m.addProperties member

theorem merged_eq (displayName : Text → Text) (s : Schema) :
    s.merged displayName = (s.allOf.foldl (Merged.addMember displayName) ⟨[], [], []⟩).addProperties s := rfl

theorem Merged.mem_keys_addProperties {m : Merged} :
    name ∈ (m.addProperties s).properties.keys ↔ name ∈ m.properties.keys ∨ name ∈ s.properties.map Prod.fst := by
  have hkeys : (m.addProperties s).properties.keys = (Table.putAll s.properties m.properties).keys := rfl
  rw [hkeys, Table.keys_putAll]
  by_cases h : name ∈ m.properties.keys <;> simp [h]

private theorem parents_foldl {displayName : Text → Text} {members : List Schema} {m : Merged} :
    (members.foldl (Merged.addMember displayName) m).parents =
      m.parents ++ members.filterMap fun member => member.ref.map fun ref => displayName (refName ref) := by
  induction members generalizing m with
  | nil => simp
  | cons member members ih =>
    rw [List.foldl_cons, ih, List.filterMap_cons]
    cases hr : member.ref <;> simp [Merged.addMember, hr, Merged.addProperties]

private theorem mem_keys_foldl {displayName : Text → Text} {members : List Schema} {m : Merged} :
    name ∈ (members.foldl (Merged.addMember displayName) m).properties.keys ↔
      name ∈ m.properties.keys ∨ ∃ member ∈ members, member.ref = none ∧ name ∈ member.properties.map Prod.fst := by
  induction members generalizing m with
  | nil => simp
  | cons member members ih =>
    rw [List.foldl_cons, ih]
    simp only [List.mem_cons, exists_eq_or_imp]
    cases hr : member.ref with
    | some ref => simp [Merged.addMember, hr]
    | none => simp [Merged.addMember, hr, Merged.mem_keys_addProperties, or_assoc]

theorem parents_merged (displayName : Text → Text) (s : Schema) :
    (s.merged displayName).parents = s.allOf.filterMap fun m => m.ref.map fun ref => displayName (refName ref) := by
  rw [merged_eq]
  exact parents_foldl

/-- A merged composition has the properties of its own and those of its members that are no references. -/
theorem mem_keys_merged {displayName : Text → Text} :
    name ∈ (s.merged displayName).properties.keys ↔
      (∃ m ∈ s.allOf, m.ref = none ∧ name ∈ m.properties.map Prod.fst) ∨ name ∈ s.properties.map Prod.fst := by
  rw [merged_eq, Merged.mem_keys_addProperties, mem_keys_foldl]
  simp [Table.keys]

/-! ## Declarations -/

/-- What the declaration of a schema says of an object: its own properties and those of its members, the definitions
that its members refer to and, unless it is a composition, the type of the values under other keys. -/
inductive Declares (settings : Settings) (s : Schema) : Trait → Prop
  | property {name : Text} (hn : name ∈ s.keptNames settings) : Declares settings s (.property name)
  | member {m : Schema} {name : Text} (hm : m ∈ s.allOf) (hr : m.ref = none) (hn : name ∈ m.keptNames settings) :
    Declares settings s (.property name)
  | parent {m : Schema} {ref : Text} (hm : m ∈ s.allOf) (hr : m.ref = some ref) :
    Declares settings s (.parent (settings.displayName (refName ref)))
  | index {values : TypeExpr} (ha : s.allOf = []) (hi : s.indexType settings = some values) :
    Declares settings s (.index values)

theorem declares_property_iff :
    s.Declares settings (.property name) ↔
      name ∈ (kept settings (s.merged settings.displayName).properties).map Prod.fst := by
  rw [mem_map_kept, ← Table.keys, mem_keys_merged]
  constructor
  · intro h
    cases h with
    | property hn =>
      obtain ⟨hn, hkept⟩ := mem_map_kept.1 hn
      exact ⟨.inr hn, hkept⟩
    | member hm hr hn =>
      obtain ⟨hn, hkept⟩ := mem_map_kept.1 hn
      exact ⟨.inl ⟨_, hm, hr, hn⟩, hkept⟩
  · rintro ⟨⟨m, hm, hr, hn⟩ | hn, hkept⟩
    · exact .member hm hr (mem_map_kept.2 ⟨hn, hkept⟩)
    · exact .property (mem_map_kept.2 ⟨hn, hkept⟩)

theorem declares_parent_iff :
    s.Declares settings (.parent name) ↔ name ∈ (s.merged settings.displayName).parents := by
  rw [parents_merged, List.mem_filterMap]
  constructor
  · intro h
    cases h with
    | parent hm hr => exact ⟨_, hm, by rw [hr, Option.map_some]⟩
  · rintro ⟨m, hm, h⟩
    obtain ⟨ref, hr, rfl⟩ := Option.map_eq_some_iff.1 h
    exact .parent hm hr

theorem declares_index_iff {values : TypeExpr} :
    s.Declares settings (.index values) ↔ s.allOf = [] ∧ s.indexType settings = some values := by
  constructor
  · intro h
    cases h with
    | index ha hi => exact ⟨ha, hi⟩
  · rintro ⟨ha, hi⟩
    exact .index ha hi

private theorem mem_traits_interface {comment : Option Text} {own : Text} {parents required : List Text}
    {properties : List (Text × Schema)} {index : Option TypeExpr} :
    t ∈ (Declaration.interface comment own parents (declaredMembers settings required properties) index).traits ↔
      match t with
      | .property name => name ∈ (kept settings properties).map Prod.fst
      | .parent name => name ∈ parents
      | .index values => index = some values := by
  have hmembers : (declaredMembers settings required properties).map (fun m => Trait.property m.member.name) =
      ((kept settings properties).map Prod.fst).map .property := by
    rw [declaredMembers_eq_map, List.map_map, List.map_map]
    rfl
  rw [Declaration.traits, hmembers]
  cases t <;> simp

theorem mem_traits_declare_iff {own : Text} (h : s.allOf ≠ [] ∨ s.enum = [] ∧ s.isObject = true) :
    t ∈ (s.declare settings own).traits ↔ s.Declares settings t := by
  have hd := declaredAs_declare settings own s
  generalize s.declare settings own = d at hd ⊢
  cases hd with
  | parents ha hm =>
    have hparents : (Declaration.typeAlias s.comment own
        (.intersection ((s.merged settings.displayName).parents.map .named))).traits =
          (s.merged settings.displayName).parents.map .parent := by
      rw [Declaration.traits, TypeExpr.traits, traitsOfAll_eq_flatMap, List.flatMap_map, List.map_eq_flatMap]
      rfl
    rw [hparents]
    cases t with
    | property name => simp [declares_property_iff, hm.2, kept]
    | parent name => simp [declares_parent_iff]
    | index values => simp [declares_index_iff, ha]
  | merged ha hm =>
    rw [mem_traits_interface]
    cases t with
    | property name => exact declares_property_iff.symm
    | parent name => exact declares_parent_iff.symm
    | index values => simp [declares_index_iff, ha]
  | enum ha he => exact absurd (h.resolve_left (not_not.2 ha)).1 he
  | object ha he ho =>
    rw [mem_traits_interface]
    cases t with
    | property name =>
      rw [← keptNames]
      constructor
      · exact .property
      · intro h
        cases h with
        | property hn => exact hn
        | member hm => simp [ha] at hm
    | parent name => simp [declares_parent_iff, parents_merged, ha]
    | index values => simp [declares_index_iff, ha]
  | other ha he ho => simp [(h.resolve_left (not_not.2 ha)).2] at ho

theorem traits_declare_of_enum (own : Text) (ha : s.allOf = []) (he : s.enum ≠ []) :
    (s.declare settings own).traits = [] := by
  have hd := declaredAs_declare settings own s
  generalize s.declare settings own = d at hd ⊢
  cases hd with
  | parents ha' => exact absurd ha ha'
  | merged ha' => exact absurd ha ha'
  | enum => rfl
  | object _ he' => exact absurd he' he
  | other _ he' => exact absurd he' he

/-! ## Both -/

/-- A schema of which the same is said in place and by name. -/
structure SaysTheSame (settings : Settings) (s : Schema) : Prop where
  /-- A reference declares the definition that it refers to, and nothing else. -/
  referred : ∀ ref, s.ref = some ref → ∀ t, s.Declares settings t ↔ t = .parent (settings.displayName (refName ref))
  /-- Properties that stand beside members, or in a member that does not show them, are shown elsewhere. -/
  shown : ∀ c, c = s ∨ c ∈ s.allOf ∧ c.ref = none → c.showsProperties = false →
    ∀ name ∈ c.keptNames settings, s.Shows settings (.property name)
  /-- A member that is a composition itself says no more than what is declared. -/
  nested : s.ref = none → ∀ m ∈ s.allOf, m.ref = none → m.allOf ≠ [] →
    ∀ t, m.Shows settings t → s.Declares settings t
  /-- No member gives the values under other keys a type. -/
  members_closed : s.allOf ≠ [] → ∀ values, ¬s.Shows settings (.index values)
  /-- An object gives the values under other keys a type only if it shows no property, and then the same one. -/
  object_closed : s.allOf = [] → s.indexType settings =
    if s.showsProperties = true ∧ s.keptNames settings = [] then some (s.recordType settings) else none

theorem shows_of_ref_iff {ref : Text} (hr : s.ref = some ref) :
    s.Shows settings t ↔ t = .parent (settings.displayName (refName ref)) := by
  rw [← mem_traits_type_iff, type_of_ref hr, TypeExpr.traits, List.mem_singleton]

theorem shows_index_iff {values : TypeExpr} (ha : s.allOf = []) :
    s.Shows settings (.index values) ↔
      (if s.showsProperties = true ∧ s.keptNames settings = [] then some (s.recordType settings) else none) =
        some values := by
  constructor
  · intro h
    cases h with
    | member _ hm => simp [ha] at hm
    | index hs hn => rw [if_pos ⟨hs, hn⟩]
  · intro h
    split at h
    · next hs =>
      obtain rfl := Option.some.inj h
      exact .index hs.1 hs.2
    · cases h

namespace SaysTheSame

theorem index_iff (h : s.SaysTheSame settings) {values : TypeExpr} :
    s.Shows settings (.index values) ↔ s.Declares settings (.index values) := by
  rw [declares_index_iff]
  by_cases ha : s.allOf = []
  · rw [shows_index_iff ha, ← h.object_closed ha]
    simp [ha]
  · simp [ha, h.members_closed ha values]

theorem shows_iff (h : s.SaysTheSame settings) : s.Shows settings t ↔ s.Declares settings t := by
  cases hr : s.ref with
  | some ref => rw [shows_of_ref_iff hr, h.referred ref hr]
  | none =>
    constructor
    · intro ht
      cases ht with
      | parent href => simp [hr] at href
      | @member _ m _ _ hm ht =>
        by_cases ha : m.allOf = []
        · cases ht with
          | parent hm' => exact .parent hm hm'
          | member _ hm' => simp [ha] at hm'
          | property hs hn => exact .member hm (showsProperties_iff.1 hs).1 hn
          | index hs hn => exact h.index_iff.1 (.member hr hm (.index hs hn))
        · cases hm' : m.ref with
          | some ref =>
            rw [shows_of_ref_iff hm'] at ht
            exact ht ▸ .parent hm hm'
          | none => exact h.nested hr m hm hm' ha t ht
      | property hs hn => exact .property hn
      | index hs hn => exact h.index_iff.1 (.index hs hn)
    · intro ht
      cases ht with
      | property hn =>
        cases hs : s.showsProperties with
        | true => exact .property hs hn
        | false => exact h.shown s (.inl rfl) hs _ hn
      | @member m _ hm hr' hn =>
        cases hs : m.showsProperties with
        | true => exact .member hr hm (.property hs hn)
        | false => exact h.shown m (.inr ⟨hm, hr'⟩) hs _ hn
      | parent hm hr' => exact .member hr hm (.parent hr')
      | index ha hi => exact h.index_iff.2 (.index ha hi)

theorem of_shows_iff (h : ∀ t, s.Shows settings t ↔ s.Declares settings t) : s.SaysTheSame settings where
  referred ref hr t := by rw [← h, shows_of_ref_iff hr]
  shown c hc _ name hn := by
    rcases hc with rfl | ⟨hm, hc⟩
    · exact (h _).2 (.property hn)
    · exact (h _).2 (.member hm hc hn)
  nested hr m hm _ _ t ht := (h t).1 (.member hr hm ht)
  members_closed ha values ht := ha (declares_index_iff.1 ((h _).1 ht)).1
  object_closed ha := by
    ext values
    have hindex := h (.index values)
    rw [shows_index_iff ha, declares_index_iff] at hindex
    simpa [ha] using hindex.symm

end SaysTheSame

/-- A schema with nothing beside what tells its kind: a composition of references and of objects that show a property,
or an object that shows one. -/
structure IsFlat (settings : Settings) (s : Schema) : Prop where
  inPlace : s.ref = none
  composition : s.allOf ≠ [] → s.keptNames settings = [] ∧
    ∀ m ∈ s.allOf, m.ref = none → m.showsProperties = true ∧ m.keptNames settings ≠ []
  object : s.allOf = [] → s.showsProperties = true ∧ s.keptNames settings ≠ [] ∧ s.indexType settings = none

theorem IsFlat.saysTheSame (h : s.IsFlat settings) : s.SaysTheSame settings := by
  by_cases ha : s.allOf = []
  · obtain ⟨hs, hn, hi⟩ := h.object ha
    refine ⟨by simp [h.inPlace], ?_, by simp [ha], fun hne => absurd ha hne, fun _ => ?_⟩
    · rintro c (rfl | ⟨hm, -⟩) hc
      · simp [hs] at hc
      · simp [ha] at hm
    · rw [hi, if_neg fun hnone => hn hnone.2]
  · obtain ⟨hn, hmembers⟩ := h.composition ha
    refine ⟨by simp [h.inPlace], ?_, ?_, fun _ values ht => ?_, fun hnone => absurd hnone ha⟩
    · rintro c (rfl | ⟨hm, hr⟩) hc
      · simp [hn]
      · simp [(hmembers c hm hr).1] at hc
    · intro _ m hm hr hne
      exact absurd (showsProperties_iff.1 (hmembers m hm hr).1).2.1 hne
    · cases ht with
      | @member _ m _ _ hm ht =>
        cases ht with
        | member hr' hm' =>
          obtain ⟨-, hnone, -⟩ := showsProperties_iff.1 (hmembers m hm hr').1
          simp [hnone] at hm'
        | index hs hn => exact (hmembers m hm (showsProperties_iff.1 hs).1).2 hn
      | index hs => exact ha (showsProperties_iff.1 hs).2.1

/-- The type of a composition or an object and its declaration say the same of it exactly if neither leaves out what the
other one says. An enumeration is given by its values both times, unless it is a reference. -/
theorem traits_agree_iff (own : Text) (h : s.allOf ≠ [] ∨ s.isObject = true) :
    (∀ t, t ∈ (s.type settings).traits ↔ t ∈ (s.declare settings own).traits) ↔
      s.ref = none ∧ s.allOf = [] ∧ s.enum ≠ [] ∨ s.SaysTheSame settings := by
  by_cases henum : s.allOf = [] ∧ s.enum ≠ []
  · obtain ⟨ha, he⟩ := henum
    rw [traits_declare_of_enum own ha he]
    cases hr : s.ref with
    | some ref =>
      -- Of the two sides neither holds: the definition that is referred to is not declared.
      have hshown : s.Shows settings (.parent (settings.displayName (refName ref))) := .parent hr
      refine iff_of_false (fun hsame => ?_) ?_
      · exact absurd ((hsame _).1 (mem_traits_type_iff.2 hshown)) List.not_mem_nil
      · rintro (⟨hnone, -⟩ | hsame)
        · cases hnone
        · have hdeclared := declares_parent_iff.1 (hsame.shows_iff.1 hshown)
          rw [parents_merged, ha] at hdeclared
          cases hdeclared
    | none =>
      have htype : s.type settings = .literals s.enum := by
        rw [type_of_no_ref hr, if_neg (not_not.2 ha), if_pos he]
      exact iff_of_true (fun t => by rw [htype, TypeExpr.traits]) (.inl ⟨rfl, ha, he⟩)
  · have hkind : s.allOf ≠ [] ∨ s.enum = [] ∧ s.isObject = true := by
      by_cases ha : s.allOf = []
      · exact .inr ⟨not_not.1 fun he => henum ⟨ha, he⟩, h.resolve_left (not_not.2 ha)⟩
      · exact .inl ha
    simp only [mem_traits_type_iff, mem_traits_declare_iff hkind, henum, and_false, false_or]
    exact ⟨.of_shows_iff, fun hsame t => hsame.shows_iff⟩

/-- An extended definition with an inline member, of which one property is excluded. -/
theorem traits_agree_of_item :
    let settings : Settings := { excludedFields := ["internal"] }
    let link : Schema := { Schema.empty with ref := some "#/definitions/base" }
    let text : Schema := { Schema.empty with tag := some "string" }
    let fields : Schema :=
      { Schema.empty with hasProperties := true, properties := [("name", text), ("internal", text)] }
    let item : Schema := { Schema.empty with allOf := [link, fields], properties := [("internal", text)] }
    (item.type settings).traits = [.parent "Base", .property "name"] ∧
      ∀ t, t ∈ (item.type settings).traits ↔ t ∈ (item.declare settings "Item").traits := by
  intro settings link text fields item
  have hmembers : ∀ m ∈ item.allOf, m.ref = none → m.showsProperties = true ∧ m.keptNames settings ≠ [] := by
    intro m hm hr
    rcases List.mem_cons.1 hm with rfl | hm
    · cases hr
    · obtain rfl := List.mem_singleton.1 hm
      exact ⟨by decide, by decide⟩
  have hflat : item.IsFlat settings :=
    ⟨rfl, fun _ => ⟨by decide, hmembers⟩, fun hnone => absurd hnone (List.cons_ne_nil _ _)⟩
  exact ⟨rfl, (traits_agree_iff "Item" (.inl (List.cons_ne_nil _ _))).2 (.inr hflat.saysTheSame)⟩

/-- A property beside the members of a composition is not shown in place, what stands in a composition inside another is
not declared, and the type of the values under other keys is not shown beside a property. -/
theorem traits_disagree :
    let link : Value := .object [(.text "$ref", .text "#/definitions/A")]
    let composition (members : List Value) : Scalar × Value := (.text "allOf", .list members)
    let named : Scalar × Value :=
      (.text "properties", .object [(.text "name", .object [(.text "type", .text "string")])])
    let counts : Scalar × Value := (.text "additionalProperties", .object [(.text "type", .text "integer")])
    let extended := Schema.ofFields [composition [link], named]
    let nested := Schema.ofFields [composition [.object [composition [link]], .object [named]]]
    let counted := Schema.ofFields [named, counts]
    ((extended.type {}).traits = [.parent "A"] ∧
      (extended.declare {} "T").traits = [.property "name", .parent "A"]) ∧
    ((nested.type {}).traits = [.parent "A", .property "name"] ∧
      (nested.declare {} "T").traits = [.property "name"]) ∧
    ((counted.type {}).traits = [.property "name"] ∧
      (counted.declare {} "T").traits = [.property "name", .index (.keyword .number)]) ∧
    ¬∀ t, t ∈ (extended.type {}).traits ↔ t ∈ (extended.declare {} "T").traits := by
  intro link composition named counts extended nested counted
  have htype : (extended.type {}).traits = [.parent "A"] := rfl
  have hdeclared : (extended.declare {} "T").traits = [.property "name", .parent "A"] := rfl
  refine ⟨⟨htype, hdeclared⟩, ⟨rfl, rfl⟩, ⟨rfl, rfl⟩, fun h => ?_⟩
  have hname := (h (.property "name")).2 (hdeclared ▸ List.mem_cons_self)
  rw [htype, List.mem_singleton] at hname
  cases hname

end Schema

end ClientGen
