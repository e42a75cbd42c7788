import ClientGen.Proofs.Api.ExportedNames
/-!
# Shared names

Several definitions may be declared under one name. A types file declares the last of those that its group uses, in the
order of the depth-first visits, while the warning about the name lists all of them in the order in which the document
leads to them. No type goes undeclared without a warning, but the last one listed need not be the one that is declared.
-/

namespace ClientGen

open Text

variable {settings : Settings} {aliases : Aliases} {document : Fields} {types : List NamedType} {t u : NamedType}
  {name : Text}

/-! ## Types files -/

/-- The type that is declared under a name: of the types with this name the last one. -/
def declaredUnder? (types : List NamedType) (name : Text) : Option NamedType :=
  (types.filter (·.name = name)).getLast?

/-- The declarations of the named types of a types file. -/
def namedDeclarations (settings : Settings) (types : List NamedType) : List Declaration :=
  (uniqueByName types).map fun t => t.schema.declare settings t.name

theorem mem_of_declaredUnder? (h : declaredUnder? types name = some t) : t ∈ types ∧ t.name = name := by
  simpa using List.mem_filter.1 (List.mem_of_getLast? h)

theorem mem_uniqueByName_iff : t ∈ uniqueByName types ↔ declaredUnder? types t.name = some t := by
  have hget : (Table.ofEntries (types.map fun t => (t.name, t))).get? t.name = declaredUnder? types t.name := by
    rw [Table.get?_ofEntries, List.filter_map, List.getLast?_map, Option.map_map]
    exact Option.map_id'
  rw [← hget]
  constructor
  · intro h
    obtain ⟨e, he, rfl⟩ := List.mem_map.1 h
    exact Table.get?_of_mem (Table.nodup_keys_ofEntries _) ((mem_entries_of_mem he).2 ▸ he)
  · intro h
    exact List.mem_map_of_mem (Table.mem_of_get? h)

theorem filter_namedDeclarations (h : declaredUnder? types name = some t) :
    (namedDeclarations settings types).filter (·.name = name) = [t.schema.declare settings name] := by
  obtain ⟨-, rfl⟩ := mem_of_declaredUnder? h
  have hnodup : ((uniqueByName types).filter (·.name = t.name)).Nodup := (nodup_uniqueByName types).of_map.filter _
  have hmem (u : NamedType) : u ∈ (uniqueByName types).filter (·.name = t.name) ↔ u ∈ [t] := by
    rw [List.mem_filter, mem_uniqueByName_iff, List.mem_singleton, decide_eq_true_eq]
    constructor
    · rintro ⟨hu, hname⟩
      rw [hname, h] at hu
      exact (Option.some.inj hu).symm
    · rintro rfl
      exact ⟨h, rfl⟩
  have hone : (uniqueByName types).filter (·.name = t.name) = [t] :=
    List.perm_singleton.1 ((List.perm_ext_iff_of_nodup hnodup (List.nodup_singleton t)).2 hmem)
  have hnames : (fun d : Declaration => decide (d.name = t.name)) ∘
      (fun u : NamedType => u.schema.declare settings u.name) = fun u : NamedType => decide (u.name = t.name) := by
    funext u
    rw [Function.comp_apply, (Schema.declaredAs_declare settings u.name u.schema).name_eq]
  rw [namedDeclarations, List.filter_map, hnames, hone, List.map_singleton]

theorem uniqueByName_of_nodup (h : (types.map NamedType.name).Nodup) : uniqueByName types = types := by
  rw [uniqueByName, Table.ofEntries_of_nodup (by simpa [List.map_map, Function.comp_def] using h), List.map_map]
  exact List.map_id _

/-! ## Warnings -/

theorem mem_collisions_iff (hn : (types.map NamedType.definition).Nodup) {c : Collision} :
    c ∈ collisions types ↔
      c.definitions = (types.filter (·.name = c.name)).map NamedType.definition ∧ 1 < c.definitions.length := by
  have hlisted (name : Text) : firstOccurrences ((types.filter (·.name = name)).map NamedType.definition) =
      (types.filter (·.name = name)).map NamedType.definition :=
    firstOccurrences_of_nodup (hn.sublist (List.filter_sublist.map _))
  simp only [collisions, Table.groupBy_eq, List.map_map, Function.comp_def, hlisted, List.mem_filter, List.mem_map,
    mem_firstOccurrences, decide_eq_true_eq]
  constructor
  · rintro ⟨⟨name, -, rfl⟩, hlength⟩
    exact ⟨rfl, hlength⟩
  · rintro ⟨hc, hlength⟩
    refine ⟨⟨c.name, ?_, ?_⟩, hlength⟩
    · obtain ⟨definition, hd⟩ := List.exists_mem_of_length_pos (Nat.zero_lt_of_lt hlength)
      rw [hc] at hd
      obtain ⟨t, ht, -⟩ := List.mem_map.1 hd
      obtain ⟨ht, hname⟩ := List.mem_filter.1 ht
      exact ⟨t, ht, by simpa using hname⟩
    · rw [← hc]

/-- Of the definitions that a collision lists, the last one that some types have: the one that the warning says is
declared. -/
def Collision.lastOf? (c : Collision) (types : List NamedType) : Option Text :=
  (c.definitions.filter (· ∈ types.map NamedType.definition)).getLast?

section Last

variable {p : Text → Bool} {before behind as : List Text} {a b : Text}

private theorem getLast?_filter_eq_iff (hn : (a :: behind).Nodup) (hp : p a = true) :
    ((before ++ a :: behind).filter p).getLast? = some a ↔ behind.filter p = [] := by
  rw [List.filter_append, List.filter_cons_of_pos hp, List.getLast?_append_of_ne_nil _ (List.cons_ne_nil _ _)]
  constructor
  · intro h
    by_contra hne
    rw [List.getLast?_cons_of_ne_nil hne] at h
    exact (List.nodup_cons.1 hn).1 (List.mem_of_mem_filter (List.mem_of_getLast? h))
  · intro h
    rw [h, List.getLast?_singleton]

private theorem idxOf_le_iff (hn : (before ++ a :: behind).Nodup) (hb : b ∈ before ++ a :: behind) :
    (before ++ a :: behind).idxOf b ≤ (before ++ a :: behind).idxOf a ↔ b ∉ behind := by
  obtain ⟨-, hn, hapart⟩ := List.nodup_append'.1 hn
  have ha : (before ++ a :: behind).idxOf a = before.length := by
    rw [List.idxOf_append_of_notMem fun h => hapart h List.mem_cons_self, List.idxOf_cons_self, Nat.add_zero]
  rw [ha]
  rcases List.mem_append.1 hb with hb | hb
  · rw [List.idxOf_append_of_mem hb]
    exact iff_of_true (List.idxOf_lt_length_of_mem hb).le fun h => hapart hb (List.mem_cons_of_mem a h)
  · rcases List.mem_cons.1 hb with rfl | hb
    · exact iff_of_true ha.le (List.nodup_cons.1 hn).1
    · have hne : a ≠ b := (ne_of_mem_of_not_mem hb (List.nodup_cons.1 hn).1).symm
      rw [List.idxOf_append_of_notMem fun h => hapart h (List.mem_cons_of_mem a hb), List.idxOf_cons_ne _ hne]
      exact iff_of_false (by omega) (not_not.2 hb)

private theorem getLast?_filter_eq_some_iff (hn : as.Nodup) (ha : a ∈ as) (hp : p a = true) :
    (as.filter p).getLast? = some a ↔ ∀ b ∈ as, p b = true → as.idxOf b ≤ as.idxOf a := by
  obtain ⟨before, behind, rfl⟩ := List.append_of_mem ha
  rw [getLast?_filter_eq_iff (List.nodup_append'.1 hn).2.1 hp, List.filter_eq_nil_iff]
  constructor
  · intro h b hb hpb
    exact (idxOf_le_iff hn hb).2 fun hbehind => h b hbehind hpb
  · intro h b hb hpb
    have hmem : b ∈ before ++ a :: behind := List.mem_append_right _ (List.mem_cons_of_mem a hb)
    exact (idxOf_le_iff hn hmem).1 (h b hmem hpb) hb

end Last

/-! ## Groups of a document -/

/-- The types of a document in the order in which it leads to them. -/
def reachedTypes (settings : Settings) (aliases : Aliases) (document : Fields) : List NamedType :=
  closure settings.displayName (documentDefinitions document)
    ((builtOperations settings aliases document).flatMap BuiltOperation.met)

theorem nodup_reachedTypes : ((reachedTypes settings aliases document).map NamedType.definition).Nodup := nodup_closure

theorem mem_reachedTypes {operations : List Operation}
    (h : t ∈ groupTypes operations (ApiModel.ofDocument settings aliases document).allTypes) :
    t ∈ reachedTypes settings aliases document :=
  ApiModel.perm_allTypes.mem_iff.1 ((mem_groupTypes_iff ApiModel.nodup_allTypes).1 h).mem

/-- A name that several types of a group have is warned of, with all definitions of the document that have it. -/
theorem mem_collisions_of_group {operations : List Operation}
    (h : 1 < ((groupTypes operations (ApiModel.ofDocument settings aliases document).allTypes).filter
      (·.name = name)).length) :
    ⟨name, ((reachedTypes settings aliases document).filter (·.name = name)).map NamedType.definition⟩ ∈
      (ApiModel.ofDocument settings aliases document).collisions := by
  refine (mem_collisions_iff nodup_reachedTypes).2 ⟨rfl, ?_⟩
  rw [List.length_map]
  refine h.trans_le (List.Nodup.subperm ((nodup_groupTypes ApiModel.nodup_allTypes).of_map.filter _) ?_).length_le
  intro t ht
  obtain ⟨ht, hname⟩ := List.mem_filter.1 ht
  exact List.mem_filter.2 ⟨mem_reachedTypes ht, hname⟩

/-! ## Pages -/

/-- A definition that refers to others: its name, and its properties with the definitions that they refer to. -/
private abbrev Linked := Text × List (Text × Text)

private def Linked.value (d : Linked) : Value :=
  .object [(.text "properties", .object (d.2.map fun (key, name) =>
    (.text key, .object [(.text "$ref", .text ("#/definitions/" ++ name))])))]

private def Linked.schema (d : Linked) : Schema :=
  { Schema.empty with
    hasProperties := true
    properties := d.2.map fun (key, name) => (key, { Schema.empty with ref := some ("#/definitions/" ++ name) }) }

private def Linked.type (d : Linked) : NamedType := namedType ({} : Settings).displayName d.1 d.schema

/-- A document with one operation, which takes a page as its body. -/
private def pageDocument (definitions : List Linked) : Fields :=
  let page : Value := .object [(.text "$ref", .text "#/definitions/Page")]
  let body : Value := .object [(.text "in", .text "body"), (.text "name", .text "page"), (.text "schema", page)]
  let operation : Value := .object [(.text "parameters", .list [body])]
  [(.text "paths", .object [(.text "/", .object [(.text "post", operation)])]),
    (.text "definitions", .object (definitions.map fun d => (.text d.1, d.value)))]

private theorem walk_of_visited {α : Type} {leadsTo : α → List Text} {table : Table α} {order : WalkOrder}
    {seen waiting : List Text} {key : Text} {v : α} {found : List (Text × α)} (hs : key ∉ seen)
    (hv : table.get? key = some v)
    (h : walk order leadsTo table (key :: seen) (order.agenda waiting (leadsTo v)) = found) :
    walk order leadsTo table seen (key :: waiting) = (key, v) :: found :=
  (walk_visited order hs hv).trans (congrArg _ h)

private theorem walk_of_seen {α : Type} {leadsTo : α → List Text} {table : Table α} {order : WalkOrder}
    {seen waiting : List Text} {key : Text} {found : List (Text × α)} (hs : key ∈ seen)
    (h : walk order leadsTo table seen waiting = found) : walk order leadsTo table seen (key :: waiting) = found :=
  (walk_skipped order (.inl hs)).trans h

private theorem reachedTypes_page {definitions listed : List Linked}
    (h : walk .breadthFirst Schema.refNames (documentDefinitions (pageDocument definitions)) [] ["Page"] =
      listed.map fun d => (d.1, d.schema)) :
    reachedTypes {} {} (pageDocument definitions) = listed.map Linked.type := by
  have hmet : (builtOperations {} {} (pageDocument definitions)).flatMap BuiltOperation.met =
      ["#/definitions/Page".toList] := rfl
  have hstart : ["#/definitions/Page".toList].map Schema.refName = ["Page".toList] := by decide
  rw [reachedTypes, hmet, closure, hstart, h, List.map_map]
  rfl

private theorem exists_page_group {definitions : List Linked} {types : List NamedType} (visited : List Linked)
    (htypes : reachedTypes {} {} (pageDocument definitions) = types)
    (h : walk .depthFirst (fun t => t.schema.refNames)
      (Table.ofEntries (registry ((Table.groupBy NamedType.module types).flatMap Prod.snd))) [] ["Page"] =
        visited.map fun d => (d.1, d.type)) :
    let model := ApiModel.ofDocument {} {} (pageDocument definitions)
    ∃ group ∈ model.operations, groupTypes group.2 model.allTypes = visited.map Linked.type := by
  intro model
  obtain ⟨o, hops, hrefs⟩ : ∃ o, model.operations = [("default".toList, [o])] ∧ o.typeRefs = ["Page".toList] :=
    ⟨_, rfl, rfl⟩
  have hall : model.allTypes = (Table.groupBy NamedType.module types).flatMap Prod.snd := by
    rw [← htypes]
    rfl
  have hroots : [o].flatMap Operation.typeRefs = ["Page".toList] := by rw [List.flatMap_singleton, hrefs]
  refine ⟨_, hops ▸ List.mem_singleton_self _, ?_⟩
  rw [groupTypes, hroots, hall]
  refine (congrArg (List.map Prod.snd) h).trans ?_
  rw [List.map_map]
  rfl

private def userPage : List Linked :=
  [("Page", [("first", "a.User"), ("second", "b.User")]), ("a.User", []), ("b.User", [("page", "Page")])]

private theorem reachedTypes_userPage : reachedTypes {} {} (pageDocument userPage) = userPage.map Linked.type :=
  reachedTypes_page <| walk_of_visited (by decide) rfl <| walk_of_visited (by decide) rfl <|
    walk_of_visited (by decide) rfl <| walk_of_seen (by decide) <| walk_nil _ _

private theorem exists_userPage_group :
    let model := ApiModel.ofDocument {} {} (pageDocument userPage)
    ∃ group ∈ model.operations, groupTypes group.2 model.allTypes = userPage.map Linked.type :=
  exists_page_group userPage reachedTypes_userPage <| walk_of_visited (by decide) rfl <|
    walk_of_visited (by decide) rfl <| walk_of_visited (by decide) rfl <| walk_of_seen (by decide) <| walk_nil _ _

/-! ## Names of a group -/

/-- A name that several types of a group have is declared once, after the last one that depth-first visits. The warning
lists the definitions of this name in the order in which the document leads to them, and the last one of them that the
group uses is the one that is declared exactly if none of the others stands behind it. -/
theorem shared_name_declared (settings : Settings) (aliases : Aliases) (document : Fields) :
    let model := ApiModel.ofDocument settings aliases document
    ∀ group ∈ model.operations,
      let types := groupTypes group.2 model.allTypes
      DepthFirst (fun t => t.schema.refNames) (registry model.allTypes) [] (group.2.flatMap Operation.typeRefs)
        (registry types) ∧
      ∀ name, 1 < (types.filter (·.name = name)).length →
        ∃ t, declaredUnder? types name = some t ∧
          (namedDeclarations settings types).filter (·.name = name) = [t.schema.declare settings name] ∧
          ∃ c ∈ model.collisions, c.message ∈ model.warnings ∧ c.name = name ∧
            c.definitions =
              ((reachedTypes settings aliases document).filter (·.name = name)).map NamedType.definition ∧
            (c.lastOf? types = some t.definition ↔
              ∀ u ∈ types, u.name = name → c.definitions.idxOf u.definition ≤ c.definitions.idxOf t.definition) := by
  intro model group hg types
  refine ⟨depthFirst_groupTypes ApiModel.nodup_allTypes, fun name hlength => ?_⟩
  obtain ⟨t, ht⟩ : ∃ t, declaredUnder? types name = some t :=
    Option.isSome_iff_exists.1 (by simpa [declaredUnder?] using List.length_pos_iff.1 (Nat.zero_lt_of_lt hlength))
  obtain ⟨hmem, hname⟩ := mem_of_declaredUnder? ht
  have hlisted {u : NamedType} (hu : u ∈ types) (hname : u.name = name) :
      u ∈ (reachedTypes settings aliases document).filter (·.name = name) :=
    List.mem_filter.2 ⟨mem_reachedTypes hu, by simpa using hname⟩
  have hc := mem_collisions_of_group hlength
  refine ⟨t, ht, filter_namedDeclarations ht, _, hc, List.mem_map_of_mem hc, rfl, rfl, ?_⟩
  rw [Collision.lastOf?, getLast?_filter_eq_some_iff (nodup_reachedTypes.sublist (List.filter_sublist.map _))
    (List.mem_map_of_mem (hlisted hmem hname)) (decide_eq_true (List.mem_map_of_mem hmem))]
  constructor
  · intro h u hu hname
    exact h _ (List.mem_map_of_mem (hlisted hu hname)) (decide_eq_true (List.mem_map_of_mem hu))
  · intro h definition hd hused
    obtain ⟨u, hu, rfl⟩ := List.mem_map.1 (of_decide_eq_true hused)
    obtain ⟨v, hv, hdefinition⟩ := List.mem_map.1 hd
    obtain ⟨hv, hname⟩ := List.mem_filter.1 hv
    obtain rfl := List.inj_on_of_nodup_map nodup_reachedTypes hv (mem_reachedTypes hu) hdefinition
    exact h v hu (of_decide_eq_true hname)

/-- The user that is listed last is declared. -/
theorem shared_name_declared_of_users :
    let model := ApiModel.ofDocument {} {} (pageDocument userPage)
    ∃ group ∈ model.operations, ∃ c ∈ model.collisions,
      let types := groupTypes group.2 model.allTypes
      c.message = "Type name collision: 'User' is produced by a.User, b.User; the last definition wins".toList ∧
      c.lastOf? types = some "b.User".toList ∧
      ((namedDeclarations {} types).filter (·.name = "User".toList)).map Declaration.lines =
        [["export interface User \x7b".toList, "  page?: Page".toList, "\x7d".toList]] := by
  intro model
  obtain ⟨group, hg, htypes⟩ := exists_userPage_group
  have htypes : groupTypes group.2 model.allTypes = userPage.map Linked.type := htypes
  have htwo : 1 < ((groupTypes group.2 model.allTypes).filter (·.name = "User".toList)).length := by
    rw [htypes]
    decide
  obtain ⟨t, ht, hdeclared, c, hc, -, hname, hlisted, hlast⟩ := (shared_name_declared {} {} _ group hg).2 "User" htwo
  rw [htypes] at ht
  obtain rfl : Linked.type ("b.User", [("page", "Page")]) = t := Option.some.inj ht
  rw [reachedTypes_userPage] at hlisted
  obtain rfl : ⟨"User", ["a.User", "b.User"]⟩ = c := by
    obtain ⟨name, definitions⟩ := c
    exact congrArg₂ Collision.mk hname.symm hlisted.symm
  refine ⟨group, hg, _, hc, by decide, hlast.2 ?_, ?_⟩
  · rw [htypes]
    decide
  · rw [hdeclared]
    decide

/-- Two types of one name, of which the one that is listed last is not declared: the depth-first visits reach it
through a box before they reach the other one. -/
theorem shared_name_misnamed :
    let page : Linked := ("Page", [("box", "Box"), ("user", "a.User")])
    let box : Linked := ("Box", [("user", "b.User")])
    let first : Linked := ("a.User", [("page", "Page")])
    let second : Linked := ("b.User", [("box", "Box")])
    let document := pageDocument [page, box, first, second]
    let model := ApiModel.ofDocument {} {} document
    ∃ group ∈ model.operations, ∃ c ∈ model.collisions,
      let types := groupTypes group.2 model.allTypes
      model.warnings = ["Type name collision: 'User' is produced by a.User, b.User; the last definition wins".toList] ∧
      c.name = "User".toList ∧ c.lastOf? types = some second.1 ∧
      ((namedDeclarations {} types).filter (·.name = "User".toList)).map Declaration.lines =
        [["export interface User \x7b".toList, "  page?: Page".toList, "\x7d".toList]] ∧
      (second.schema.declare {} "User").lines =
        ["export interface User \x7b".toList, "  box?: Box".toList, "\x7d".toList] := by
  intro page box first second document model
  have hreached : reachedTypes {} {} document = [page, box, first, second].map Linked.type :=
    reachedTypes_page <| walk_of_visited (by decide) rfl <| walk_of_visited (by decide) rfl <|
      walk_of_visited (by decide) rfl <| walk_of_visited (by decide) rfl <| walk_of_seen (by decide) <|
        walk_of_seen (by decide) <| walk_nil _ _
  obtain ⟨group, hg, htypes⟩ := exists_page_group [page, box, second, first] hreached <|
    walk_of_visited (by decide) rfl <| walk_of_visited (by decide) rfl <| walk_of_visited (by decide) rfl <|
      walk_of_seen (by decide) <| walk_of_visited (by decide) rfl <| walk_of_seen (by decide) <| walk_nil _ _
  have htypes : groupTypes group.2 model.allTypes = [page, box, second, first].map Linked.type := htypes
  have hcollisions : model.collisions = [⟨"User", [first.1, second.1]⟩] :=
    (congrArg collisions hreached).trans (by decide)
  refine ⟨group, hg, ⟨"User", [first.1, second.1]⟩, hcollisions ▸ List.mem_singleton_self _, ?_, rfl, ?_, ?_, ?_⟩
  · rw [ApiModel.warnings, hcollisions]
    decide
  · rw [htypes]
    decide
  · rw [htypes]
    rw [filter_namedDeclarations (t := first.type) rfl]
    decide
  · decide

end ClientGen
