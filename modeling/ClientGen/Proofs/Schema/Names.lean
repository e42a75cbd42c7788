import ClientGen.Proofs.Schema.Declared
import ClientGen.Proofs.Schema.References
/-!
# Names in declarations

The names that the declaration of a schema mentions are those of the definitions that the schema refers to, as
long as a reference stands alone in its schema.
-/

namespace ClientGen

open Text

variable {settings : Settings} {name : Text}

/-- A name that a type expression mentions. -/
inductive TypeExpr.Mentions (name : Text) : TypeExpr → Prop
  | named : Mentions name (.named name)
  | intersection {members : List TypeExpr} {e : TypeExpr} (he : e ∈ members) (h : Mentions name e) :
    Mentions name (.intersection members)
  | array {item : TypeExpr} (h : Mentions name item) : Mentions name (.array item)
  | grouped {inner : TypeExpr} (h : Mentions name inner) : Mentions name (.grouped inner)
  | object {members : List (Member TypeExpr)} {m : Member TypeExpr} (hm : m ∈ members)
    (h : Mentions name m.type) : Mentions name (.object members)
  | record {values : TypeExpr} (h : Mentions name values) : Mentions name (.record values)

/-- A name that a declaration mentions: among what it extends, in the type of a member, in the type of the
values under other keys or in the type that an alias stands for. -/
inductive Declaration.Mentions (name : Text) : Declaration → Prop
  | parent {comment : Option Text} {own : Text} {parents : List Text} {members : List DeclaredMember}
    {index : Option TypeExpr} (h : name ∈ parents) :
    Mentions name (.interface comment own parents members index)
  | member {comment : Option Text} {own : Text} {parents : List Text} {members : List DeclaredMember}
    {index : Option TypeExpr} {m : DeclaredMember} (hm : m ∈ members) (h : m.member.type.Mentions name) :
    Mentions name (.interface comment own parents members index)
  | index {comment : Option Text} {own : Text} {parents : List Text} {members : List DeclaredMember}
    {type : TypeExpr} (h : type.Mentions name) :
    Mentions name (.interface comment own parents members (some type))
  | aliased {comment : Option Text} {own : Text} {type : TypeExpr} (h : type.Mentions name) :
    Mentions name (.typeAlias comment own type)

namespace Schema

/-- The declared name of a definition that a schema refers to. -/
def Names (settings : Settings) (s : Schema) (name : Text) : Prop :=
  ∃ ref, s.Mentions ref ∧ settings.displayName (refName ref) = name

theorem Names.of_part {s c : Schema} (hs : s.ref = none) (hc : c ∈ s.parts) (h : c.Names settings name) :
    s.Names settings name := by
  obtain ⟨ref, hm, hname⟩ := h
  exact ⟨ref, .part hs hc hm, hname⟩

private theorem not_mentions_unknown : ¬TypeExpr.unknown.Mentions name := by
  intro h
  cases h

private theorem mentions_getD {type : Option TypeExpr} (h : (type.getD .unknown).Mentions name) :
    ∃ e ∈ type, e.Mentions name := by
  cases type with
  | none => exact absurd h not_mentions_unknown
  | some e => exact ⟨e, rfl, h⟩

theorem names_of_mentions_type {s : Schema} (h : (s.type settings).Mentions name) : s.Names settings name := by
  induction s using partInduction with
  | h s ih =>
    have hpart {c : Schema} (hs : s.ref = none) (hc : c ∈ s.parts) (h : (c.type settings).Mentions name) :
        s.Names settings name := (ih c hc h).of_part hs hc
    clear ih
    have hshape := type_shape settings s
    generalize s.type settings = e at hshape h
    cases hshape with
    | named hr =>
      cases h
      exact ⟨_, .here hr, rfl⟩
    | intersection hr =>
      cases h with
      | intersection he h =>
        obtain ⟨m, hm, rfl⟩ := List.mem_map.1 he
        exact hpart hr (mem_parts.2 (.inr (.inr (.inl hm)))) h
    | literals => cases h
    | keyword => cases h
    | array hr =>
      cases h with
      | array h =>
        obtain ⟨e, he, h⟩ := mentions_getD h
        obtain ⟨i, hi, rfl⟩ := Option.map_eq_some_iff.1 he
        exact hpart hr (mem_parts.2 (.inr (.inl hi))) h
    | object hr =>
      cases h with
      | object hm h =>
        obtain ⟨p, hp, rfl⟩ := List.mem_map.1 hm
        exact hpart hr (mem_parts.2 (.inl ⟨p, (mem_kept.1 hp).1, rfl⟩)) h
    | noRecord =>
      cases h with
      | record h => exact absurd h not_mentions_unknown
    | record hr =>
      cases h with
      | record h =>
        obtain ⟨e, he, h⟩ := mentions_getD h
        obtain ⟨a, ha, rfl⟩ := Option.map_eq_some_iff.1 he
        exact hpart hr (mem_parts.2 (.inr (.inr (.inr ha)))) h

/-! ## Compositions -/

/-- Where what a merged composition holds comes from. -/
structure Merged.ComesFrom (displayName : Text → Text) (s : Schema) (m : Merged) : Prop where
  parents : ∀ p ∈ m.parents, ∃ member ∈ s.allOf, ∃ ref, member.ref = some ref ∧
    displayName (refName ref) = p
  properties : ∀ p ∈ m.properties, p ∈ s.properties ∨
    ∃ member ∈ s.allOf, member.ref = none ∧ p ∈ member.properties

theorem merged_comesFrom (displayName : Text → Text) (s : Schema) :
    (s.merged displayName).ComesFrom displayName s := by
  have hadded {m : Merged} (hm : m.ComesFrom displayName s) {member : Schema}
      (hp : ∀ p ∈ member.properties, p ∈ s.properties ∨
        ∃ other ∈ s.allOf, other.ref = none ∧ p ∈ other.properties) :
      (m.addProperties member).ComesFrom displayName s := by
    refine ⟨hm.parents, ?_⟩
    intro p hmem
    rcases Table.mem_of_mem_putAll hmem with hmem | hmem
    · exact hp p hmem
    · exact hm.properties p hmem
  refine hadded ?_ fun p hp => .inl hp
  refine List.foldlRecOn s.allOf _ ⟨by simp, by simp⟩ fun m hm member hmem => ?_
  split
  · next ref href =>
    refine ⟨?_, hm.properties⟩
    intro p hp
    rcases List.mem_append.1 hp with hp | hp
    · exact hm.parents p hp
    · exact ⟨member, hmem, ref, href, (List.mem_singleton.1 hp).symm⟩
  · next href => exact hadded hm fun p hp => .inr ⟨member, hmem, href, hp⟩

/-! ## References that stand alone -/

/-- A schema that says nothing about its type but what it may refer to. -/
structure IsPlain (s : Schema) : Prop where
  tag : s.tag = none
  items : s.items = none
  enum : s.enum = []
  allOf : s.allOf = []
  properties : s.hasProperties = false ∧ s.properties = []
  additional : s.additional = none ∧ s.isOpen = false

/-- A schema in which every reference stands alone, here and in all its parts. -/
inductive RefsAlone : Schema → Prop
  | mk {s : Schema} (alone : s.ref ≠ none → s.IsPlain) (parts : ∀ c ∈ s.parts, RefsAlone c) : RefsAlone s

namespace RefsAlone

variable {s : Schema}

theorem of_ref_eq_none (h : s.ref = none) (hparts : ∀ c ∈ s.parts, c.RefsAlone) : s.RefsAlone :=
  .mk (fun hs => absurd h hs) hparts

theorem isPlain (h : s.RefsAlone) (hs : s.ref ≠ none) : s.IsPlain := by
  cases h with
  | mk alone _ => exact alone hs

theorem of_part (h : s.RefsAlone) {c : Schema} (hc : c ∈ s.parts) : c.RefsAlone := by
  cases h with
  | mk _ parts => exact parts c hc

theorem ref_eq_none (h : s.RefsAlone) (hs : ¬s.IsPlain) : s.ref = none := by
  by_contra href
  exact hs (h.isPlain href)

end RefsAlone

private theorem names_of_mentions_members {s : Schema} {required : List Text}
    {properties : List (Text × Schema)} (hp : ∀ p ∈ properties, ∀ n, p.2.Names settings n → s.Names settings n)
    {m : DeclaredMember} (hm : m ∈ declaredMembers settings required properties)
    (h : m.member.type.Mentions name) : s.Names settings name := by
  obtain ⟨p, hmem, rfl⟩ := List.mem_map.1 hm
  exact hp p (mem_kept.1 hmem).1 name (names_of_mentions_type h)

private theorem names_of_mem_parents {s : Schema} (hs : s.ref = none)
    (h : name ∈ (s.merged settings.displayName).parents) : s.Names settings name := by
  obtain ⟨member, hm, ref, href, rfl⟩ := (merged_comesFrom settings.displayName s).parents name h
  exact Names.of_part hs (mem_parts.2 (.inr (.inr (.inl hm)))) ⟨ref, .here href, rfl⟩

private theorem names_of_mem_properties {s : Schema} (hs : s.ref = none) {p : Text × Schema}
    (hp : p ∈ s.properties) (h : p.2.Names settings name) : s.Names settings name :=
  h.of_part hs (mem_parts.2 (.inl ⟨p, hp, rfl⟩))

private theorem names_of_mem_merged_properties {s : Schema} (hs : s.ref = none) {p : Text × Schema}
    (hp : p ∈ (s.merged settings.displayName).properties) (h : p.2.Names settings name) :
    s.Names settings name := by
  rcases (merged_comesFrom settings.displayName s).properties p hp with hp | ⟨member, hm, href, hp⟩
  · exact names_of_mem_properties hs hp h
  · exact (names_of_mem_properties href hp h).of_part hs (mem_parts.2 (.inr (.inr (.inl hm))))

private theorem names_of_mentions_index {s : Schema} (hs : s.ref = none) {type : TypeExpr}
    (hi : s.indexType settings = some type) (h : type.Mentions name) : s.Names settings name := by
  unfold indexType at hi
  split at hi
  · obtain rfl := Option.some.inj hi
    exact absurd h not_mentions_unknown
  · obtain ⟨a, ha, rfl⟩ := Option.map_eq_some_iff.1 hi
    exact (names_of_mentions_type h).of_part hs (mem_parts.2 (.inr (.inr (.inr ha))))

/-- The declaration of a schema mentions the definitions that the schema refers to. -/
theorem DeclaredAs.names {own : Text} {s : Schema} {d : Declaration} (hd : DeclaredAs settings own s d)
    (hs : s.RefsAlone) (h : d.Mentions name) : s.Names settings name := by
  have hcomposed (hne : s.allOf ≠ []) : s.ref = none := hs.ref_eq_none fun hplain => hne hplain.allOf
  cases hd with
  | parents ha hm =>
    cases h with
    | aliased h =>
      cases h with
      | intersection he h =>
        obtain ⟨p, hp, rfl⟩ := List.mem_map.1 he
        cases h
        exact names_of_mem_parents (hcomposed ha) hp
  | merged ha hm =>
    cases h with
    | parent h => exact names_of_mem_parents (hcomposed ha) h
    | member hm h =>
      exact names_of_mentions_members (fun p hp n => names_of_mem_merged_properties (hcomposed ha) hp) hm h
  | enum ha he =>
    cases h with
    | aliased h => cases h
  | object ha he ho =>
    have href : s.ref = none := hs.ref_eq_none fun hplain => by
      simp [isObject, isTagged, hplain.tag, hplain.properties.1] at ho
    generalize hi : s.indexType settings = index at h
    cases h with
    | parent h => exact absurd h List.not_mem_nil
    | member hm h =>
      exact names_of_mentions_members (fun p hp n => names_of_mem_properties href hp) hm h
    | index h => exact names_of_mentions_index href hi h
  | other ha he ho =>
    cases h with
    | aliased h => exact names_of_mentions_type h

end Schema

end ClientGen
