import ClientGen.Proofs.Schema.Legible
import ClientGen.Proofs.TypeScript.TypeMeaning
import ClientGen.TypeScript.TypesFile
/-!
# What schemas mean

The type that a schema means, and whether the text of its type is read as this type. The types of query parameters
always are.
-/

namespace ClientGen

open Text TypeTree TypeReader

variable {settings : Settings}

def TypeTree.unknown : TypeTree := .word "unknown"

namespace Schema

mutual

/-- The type that a schema means: of a reference its name, of a composition an intersection, of an enumeration the
union of its values, of an array an array, and of an object an object without the excluded properties. -/
def tree (settings : Settings) : Schema → TypeTree
  | ⟨some ref, _, _, _, _, _, _, _, _, _, _⟩ => .word (settings.displayName (refName ref))
  | ⟨none, allOf, enum, tag, items, hasProperties, properties, required, additional, _, _⟩ =>
    if allOf ≠ [] then combine .meet (treeOfAll settings allOf)
    else if enum ≠ [] then combine .union (enum.map ofLiteral)
    else
      match Keyword.ofTag? tag with
      | some k => .word k.render
      | none =>
        if tag = some "array".toList then .array ((treeOfOption settings items).getD .unknown)
        else if tag = some "object".toList ∨ hasProperties = true then
          if properties ≠ [] then
            match treeOfMembers settings required properties with
            | [] => .record .unknown
            | members => .object members
          else .record ((treeOfOption settings additional).getD .unknown)
        else .unknown
termination_by structural s => s

def treeOfOption (settings : Settings) : Option Schema → Option TypeTree
  | none => none
  | some s => some (tree settings s)
termination_by structural s => s

def treeOfAll (settings : Settings) : List Schema → List TypeTree
  | [] => []
  | s :: ss => tree settings s :: treeOfAll settings ss
termination_by structural ss => ss

def treeOfMembers (settings : Settings) (required : List Text) : List (Text × Schema) → List (Member TypeTree)
  | [] => []
  | (name, s) :: rest =>
    if settings.excludes name then treeOfMembers settings required rest
    else ⟨name, name ∉ required, tree settings s⟩ :: treeOfMembers settings required rest
termination_by structural ps => ps

end

mutual

theorem tree_type (settings : Settings) : (s : Schema) → (s.type settings).tree = s.tree settings
  | ⟨some _, _, _, _, _, _, _, _, _, _, _⟩ => rfl
  | ⟨none, allOf, enum, tag, items, hasProperties, properties, required, additional, _, _⟩ => by
    have hgetD {e? : Option TypeExpr} : (e?.getD .unknown).tree = (e?.map TypeExpr.tree).getD .unknown := by
      cases e? <;> rfl
    have hfull {α : Type} (l : List α) : (!l.isEmpty) = true ↔ l ≠ [] := by simp
    have hmembers := treeMembers_typeOfMembers settings required properties
    unfold type tree
    simp only [hfull, Bool.or_eq_true, decide_eq_true_eq]
    by_cases hallOf : allOf ≠ []
    · rw [if_pos hallOf, if_pos hallOf]
      exact congrArg (combine .meet) (treeAll_typeOfAll settings allOf)
    by_cases henum : enum ≠ []
    · rw [if_neg hallOf, if_neg hallOf, if_pos henum, if_pos henum]
      rfl
    rw [if_neg hallOf, if_neg hallOf, if_neg henum, if_neg henum]
    cases Keyword.ofTag? tag with
    | some k => rfl
    | none =>
      dsimp only
      by_cases harray : tag = some "array".toList
      · rw [if_pos harray, if_pos harray, ← tree_typeOfOption settings items, ← hgetD]
        rfl
      by_cases hobject : tag = some "object".toList ∨ hasProperties = true
      · rw [if_neg harray, if_neg harray, if_pos hobject, if_pos hobject]
        by_cases hproperties : properties ≠ []
        · rw [if_pos hproperties, if_pos hproperties, ← hmembers]
          cases typeOfMembers settings required properties <;> rfl
        · rw [if_neg hproperties, if_neg hproperties, ← tree_typeOfOption settings additional, ← hgetD]
          rfl
      · rw [if_neg harray, if_neg harray, if_neg hobject, if_neg hobject]
        rfl
termination_by structural s => s

theorem tree_typeOfOption (settings : Settings) :
    (s : Option Schema) → (typeOfOption settings s).map TypeExpr.tree = treeOfOption settings s
  | none => rfl
  | some s => congrArg some (tree_type settings s)
termination_by structural s => s

theorem treeAll_typeOfAll (settings : Settings) :
    (ss : List Schema) → TypeExpr.treeAll (typeOfAll settings ss) = treeOfAll settings ss
  | [] => rfl
  | s :: ss => by
    have hhead := tree_type settings s
    have htail := treeAll_typeOfAll settings ss
    change (s.type settings).tree :: TypeExpr.treeAll (typeOfAll settings ss) = _
    rw [hhead, htail]
    rfl
termination_by structural ss => ss

theorem treeMembers_typeOfMembers (settings : Settings) (required : List Text) : (ps : List (Text × Schema)) →
    TypeExpr.treeMembers (typeOfMembers settings required ps) = treeOfMembers settings required ps
  | [] => rfl
  | (name, s) :: ps => by
    have hhead := tree_type settings s
    have htail := treeMembers_typeOfMembers settings required ps
    unfold typeOfMembers treeOfMembers
    split
    · exact htail
    · change ⟨name, _, (s.type settings).tree⟩ :: TypeExpr.treeMembers (typeOfMembers settings required ps) = _
      rw [hhead, htail]
termination_by structural ps => ps

end

/-- A schema whose references lead to declared names that are identifiers, whose enumerations hold values with literals
on one line and whose properties have names on one line, here and in all its parts. -/
inductive IsReadable (settings : Settings) : Schema → Prop
  | mk {s : Schema}
    (ref : ∀ r ∈ s.ref, isIdentifier (settings.displayName (refName r)) = true)
    (enum : ∀ v ∈ s.enum, IsLiteralValue v)
    (names : ∀ p ∈ s.properties, settings.excludes p.1 = false → '\n' ∉ p.1)
    (allOf : ∀ m ∈ s.allOf, IsReadable settings m)
    (items : ∀ i ∈ s.items, IsReadable settings i)
    (properties : ∀ p ∈ s.properties, settings.excludes p.1 = false → IsReadable settings p.2)
    (additional : ∀ a ∈ s.additional, IsReadable settings a) : IsReadable settings s

private theorem getD_readable {t : Option TypeExpr} (h : ∀ e ∈ t, e.IsReadable) : (t.getD .unknown).IsReadable := by
  cases t with
  | none => exact .keyword .unknown
  | some e => exact h e rfl

theorem IsReadable.type {s : Schema} (h : s.IsReadable settings) : (s.type settings).IsReadable := by
  induction h with
  | @mk s ref enum names _ _ _ _ allOf items properties additional =>
    have hshape := type_shape settings s
    generalize s.type settings = e at hshape ⊢
    cases hshape with
    | named h => exact .named (ref _ h)
    | intersection _ hne =>
      refine .intersection (by simpa using hne) fun e he => ?_
      obtain ⟨m, hm, rfl⟩ := List.mem_map.1 he
      exact allOf m hm
    | literals _ hne => exact .literals hne enum
    | keyword k => exact .keyword k
    | array =>
      refine .array (getD_readable fun e he => ?_)
      obtain ⟨i, hi, rfl⟩ := Option.map_eq_some_iff.1 he
      exact items i hi
    | object =>
      refine .object (fun m hm => ?_) fun m hm => ?_
      · obtain ⟨p, hp, rfl⟩ := List.mem_map.1 hm
        obtain ⟨hp, hkept⟩ := mem_kept.1 hp
        exact names p hp hkept
      · obtain ⟨p, hp, rfl⟩ := List.mem_map.1 hm
        obtain ⟨hp, hkept⟩ := mem_kept.1 hp
        exact properties p hp hkept
    | noRecord => exact .record (.keyword .unknown)
    | record =>
      refine .record (getD_readable fun e he => ?_)
      obtain ⟨a, ha, rfl⟩ := Option.map_eq_some_iff.1 he
      exact additional a ha

/-- The type that the items of a query parameter mean: by their values or by their own kind. -/
def itemTree (s : Schema) : TypeTree :=
  if s.enum ≠ [] then combine .union (s.enum.map ofLiteral) else .word ((Keyword.ofTag? s.tag).getD .unknown).render

theorem itemTree_eq_tree {s : Schema} (hr : s.ref = none) (ha : s.allOf = [])
    (hk : s.enum ≠ [] ∨ (Keyword.ofTag? s.tag).isSome = true) : s.itemTree = s.tree settings := by
  obtain ⟨ref, allOf, enum, tag, items, hasProperties, properties, required, additional, isOpen, description⟩ := s
  obtain rfl : ref = none := hr
  obtain rfl : allOf = [] := ha
  unfold itemTree tree
  rw [if_neg (not_not.2 rfl)]
  by_cases henum : enum = []
  · rw [if_neg (not_not.2 henum), if_neg (not_not.2 henum)]
    obtain ⟨k, hk⟩ := Option.isSome_iff_exists.1 (hk.resolve_left (not_not.2 henum))
    change Keyword.ofTag? tag = some k at hk
    simp only [hk]
    rfl
  · rw [if_pos henum, if_pos henum]

end Schema

/-! ## Query parameters -/

namespace Parameter

/-- The type that a query parameter means. -/
def tree (p : Parameter) : TypeTree :=
  if p.enum ≠ [] then combine .union (p.enum.map ofLiteral)
  else
    match Keyword.ofTag? p.tag with
    | some k => .word k.render
    | none =>
      if p.tag = some "array".toList then .array (((p.items.bind Schema.ofObject?).map Schema.itemTree).getD .unknown)
      else .unknown

theorem tree_of_items {p : Parameter} {items : Schema} (henum : p.enum = []) (htag : p.tag = some "array".toList)
    (hitems : p.items.bind Schema.ofObject? = some items) (hr : items.ref = none) (ha : items.allOf = [])
    (hk : items.enum ≠ [] ∨ (Keyword.ofTag? items.tag).isSome = true) : p.tree = .array (items.tree settings) := by
  rw [← Schema.itemTree_eq_tree hr ha hk, tree, if_neg (not_not.2 henum), htag, hitems]
  rfl

/-- A query parameter whose values, or those of its items, have literals on one line. -/
structure IsReadable (p : Parameter) : Prop where
  enum_literal : ∀ v ∈ p.enum, IsLiteralValue v
  items_literal : ∀ items ∈ p.items.bind Schema.ofObject?, ∀ v ∈ items.enum, IsLiteralValue v

theorem read_type {p : Parameter} (h : p.IsReadable) : read? p.type.render = some p.tree := by
  have hliterals {vs : List Value} (hne : vs ≠ []) (hv : ∀ v ∈ vs, IsLiteralValue v) :
      ofRow (TypeExpr.literals vs).row = combine .union (vs.map ofLiteral) :=
    (TypeExpr.IsReadable.literals hne hv).ofRow_row_eq_tree_iff.2 (.literals vs)
  have hkeyword (k : Keyword) : read? (TypeExpr.array (.keyword k)).render = some (.array (.word k.render)) :=
    (TypeExpr.IsReadable.array (.keyword k)).reads.read?
  unfold type tree
  by_cases henum : p.enum = []
  · rw [if_neg (by simp [henum]), if_neg (not_not.2 henum)]
    cases Keyword.ofTag? p.tag with
    | some k => exact (TypeExpr.IsReadable.keyword k).reads.read?
    | none =>
      dsimp only
      by_cases harray : p.tag = some "array".toList
      · rw [if_pos harray, if_pos harray]
        cases hitems : p.items.bind Schema.ofObject? with
        | none => exact hkeyword .unknown
        | some i =>
          dsimp only [Option.map_some, Option.getD_some]
          by_cases hvalues : i.enum = []
          · rw [if_neg (by simp [hvalues]), Schema.itemTree, if_neg (not_not.2 hvalues)]
            exact hkeyword _
          · have hv := h.items_literal i hitems
            rw [if_pos (by simpa using hvalues), Schema.itemTree, if_pos hvalues, ← hliterals hvalues hv]
            -- the parentheses are what keeps the brackets off the last value
            exact ((TypeExpr.reads_renderLiterals hvalues hv).grouped.array ⟨[], _, rfl⟩).read?
      · rw [if_neg harray, if_neg harray]
        exact (TypeExpr.IsReadable.keyword .unknown).reads.read?
  · have hv := h.enum_literal
    rw [if_pos (by simpa using henum), if_pos henum, ← hliterals henum hv]
    exact (TypeExpr.reads_renderLiterals henum hv).read?

end Parameter

/-! ## Types that are read -/

/-- The text of the type of a schema is read as what the schema means exactly if no parentheses are missing in it. What
query parameters mean is always read. -/
theorem type_read_as_meant (settings : Settings) :
    (∀ s : Schema, s.IsReadable settings →
      (read? (s.type settings).render = some (s.tree settings) ↔ (s.type settings).NeedsNoParentheses)) ∧
    ∀ p : Parameter, p.IsReadable → read? p.type.render = some p.tree := by
  refine ⟨fun s hs => ?_, fun p hp => p.read_type hp⟩
  rw [hs.type.reads.read?, Option.some_inj, ← s.tree_type settings]
  exact hs.type.ofRow_row_eq_tree_iff

/-! ### Enumerations in arrays and compositions -/

private def reference (name : Text) : Schema := { Schema.empty with ref := some name }

private def switch : Schema := { Schema.empty with enum := [.scalar (.text "on"), .scalar (.text "off")] }

private def listOf (items : Schema) : Schema := { Schema.empty with tag := some "array", items := some items }

private def composition (members : List Schema) : Schema := { Schema.empty with allOf := members }

private def device : Schema :=
  { Schema.empty with
    tag := some "object"
    properties :=
      [("tags", listOf (reference "Tag")), ("state", switch), ("owner", composition [reference "A", reference "B"])]
    required := ["tags"] }

private def switches : Parameter where
  tag := some "array"
  items := some (.object [(.text "enum", .list [.scalar (.text "on"), .scalar (.text "off")])])

private def switchTree : TypeTree := .combined .union [.quoted "on", .quoted "off"]

private theorem isReadable_reference {name : Text}
    (h : isIdentifier (settings.displayName (Schema.refName name)) = true) :
    (reference name).IsReadable settings := by
  refine .mk ?_ ?_ ?_ ?_ ?_ ?_ ?_ <;> simp [reference, Schema.empty, h]

private theorem isReadable_switch : switch.IsReadable settings := by
  have hvalues : ∀ v ∈ switch.enum, IsLiteralValue v := by
    intro v hv
    simp only [switch, List.mem_cons, List.not_mem_nil, or_false] at hv
    rcases hv with rfl | rfl
    · exact .text (by decide)
    · exact .text (by decide)
  refine .mk ?_ hvalues ?_ ?_ ?_ ?_ ?_ <;> simp [switch, Schema.empty]

private theorem isReadable_listOf {items : Schema} (h : items.IsReadable settings) :
    (listOf items).IsReadable settings := by
  refine .mk ?_ ?_ ?_ ?_ ?_ ?_ ?_ <;> simp [listOf, Schema.empty, h]

private theorem isReadable_composition {members : List Schema} (h : ∀ m ∈ members, m.IsReadable settings) :
    (composition members).IsReadable settings := by
  refine .mk ?_ ?_ ?_ h ?_ ?_ ?_ <;> simp [composition, Schema.empty]

private theorem isReadable_device (h : ∀ name ∈ ["Tag".toList, "A".toList, "B".toList],
    isIdentifier (settings.displayName (Schema.refName name)) = true) : device.IsReadable settings := by
  have htags := isReadable_listOf (isReadable_reference (h "Tag" (by simp)))
  have howner : (composition [reference "A", reference "B"]).IsReadable settings := by
    refine isReadable_composition fun m hm => ?_
    simp only [List.mem_cons, List.not_mem_nil, or_false] at hm
    rcases hm with rfl | rfl
    · exact isReadable_reference (h "A" (by simp))
    · exact isReadable_reference (h "B" (by simp))
  have hproperties : ∀ p ∈ device.properties, settings.excludes p.1 = false → p.2.IsReadable settings := by
    intro p hp _
    simp only [device, List.mem_cons, List.not_mem_nil, or_false] at hp
    rcases hp with rfl | rfl | rfl
    · exact htags
    · exact isReadable_switch
    · exact howner
  refine .mk ?_ ?_ ?_ ?_ ?_ hproperties ?_ <;> simp [device, Schema.empty]

private theorem type_device : device.type {} = .object
    [⟨"tags", false, .array (.named "Tag")⟩, ⟨"state", true, .literals switch.enum⟩,
      ⟨"owner", true, .intersection [.named "A", .named "B"]⟩] := rfl

/-- The properties of an object are read as they are meant, and so is a parameter that lists values. -/
theorem type_read_as_meant_of_device :
    read? (device.type {}).render = some (.object
      [⟨"tags", false, .array (.word "Tag")⟩, ⟨"state", true, switchTree⟩,
        ⟨"owner", true, .combined .meet [.word "A", .word "B"]⟩]) ∧
    read? switches.type.render = some (.array switchTree) := by
  have hnone : (device.type {}).NeedsNoParentheses := by
    rw [type_device]
    refine .object fun m hm => ?_
    simp only [List.mem_cons, List.not_mem_nil, or_false] at hm
    rcases hm with rfl | rfl | rfl
    · exact .array (.named _) rfl
    · exact .literals _
    · have hmember : ∀ e ∈ [TypeExpr.named "A", .named "B"], e.NeedsNoParentheses ∧ e.tree.isUnion = false := by
        intro e he
        simp only [List.mem_cons, List.not_mem_nil, or_false] at he
        rcases he with rfl | rfl
        · exact ⟨.named _, rfl⟩
        · exact ⟨.named _, rfl⟩
      exact .intersection (fun e he => (hmember e he).1) (.inr fun e he => (hmember e he).2)
  have hswitches : switches.IsReadable := by
    refine ⟨by simp [switches], fun items hitems v hv => ?_⟩
    obtain rfl : switch = items := Option.some.inj hitems
    have hswitch : switch.IsReadable {} := isReadable_switch
    obtain ⟨-, henum, -, -, -, -, -⟩ := hswitch
    exact henum v hv
  obtain ⟨hschema, hparameter⟩ := type_read_as_meant {}
  exact ⟨(hschema device (isReadable_device (by decide))).2 hnone, hparameter switches hswitches⟩

/-- The brackets behind an enumeration belong to its last value alone, and in a composition the other members are
joined to its last value alone. -/
theorem type_misread_of_switch :
    (listOf switch).IsReadable {} ∧ ((listOf switch).type {}).render = "'on' | 'off'[]".toList ∧
    read? ((listOf switch).type {}).render = some (.combined .union [.quoted "on", .array (.quoted "off")]) ∧
    (listOf switch).tree {} = .array switchTree ∧
    read? ((composition [switch, reference "A"]).type {}).render =
      some (.combined .union [.quoted "on", .combined .meet [.quoted "off", .word "A"]]) ∧
    (composition [switch, reference "A"]).tree {} = .combined .meet [switchTree, .word "A"] :=
  ⟨isReadable_listOf isReadable_switch, rfl, rfl, rfl, rfl, rfl⟩

end ClientGen
