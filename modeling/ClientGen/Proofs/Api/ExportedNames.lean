import ClientGen.Proofs.Api.ClosedGroups
import Mathlib
/-!
# Exported names

What the files of a group export is named after methods and paths and after definitions. Two request functions of a
group meet in one name exactly if they have one method and their paths add the same to the name. The named types of a
group are declared once, but the interfaces of query parameters may meet each other and the named types.
-/

namespace ClientGen

open Text

/-! ## Names of request functions -/

namespace Naming

variable {method other path path' : Text}

/-- What a path adds to the names of its request functions. -/
def pathName (path : Text) : Text :=
  (((splitOn '/' (substitute colonAt (substitute bracedAt path))).filter (· ≠ [])).flatMap pascalCase).filter
    isIdentChar

theorem callName_eq (h : method ∈ httpMethods) (path : Text) : callName method path = method ++ pathName path := by
  have hlower : ∀ m ∈ httpMethods, lower m = m := by decide
  have hident : method.filter isIdentChar = method :=
    List.filter_eq_self.2 (isIdentChar_of_mem (isIdentifier_of_mem_httpMethods _ h))
  rw [callName, hlower _ h, List.filter_append, hident]
  rfl

private theorem append_eq_append_iff {f : Text → Text}
    (hfree : ∀ m ∈ httpMethods, ∀ n ∈ httpMethods, f m <+: f n → m = n) (h : method ∈ httpMethods)
    (h' : other ∈ httpMethods) {t u : Text} : f method ++ t = f other ++ u ↔ method = other ∧ t = u := by
  constructor
  · intro heq
    have hfirst : f method <+: f other ++ u := heq ▸ List.prefix_append _ _
    have hmethods : method = other := by
      rcases List.prefix_or_prefix_of_prefix hfirst (List.prefix_append _ _) with hp | hp
      · exact hfree _ h _ h' hp
      · exact (hfree _ h' _ h hp).symm
    subst hmethods
    exact ⟨rfl, List.append_cancel_left heq⟩
  · rintro ⟨rfl, rfl⟩
    rfl

/-- Request functions have one name exactly if the methods are the same and the paths add the same. -/
theorem callName_eq_iff (h : method ∈ httpMethods) (h' : other ∈ httpMethods) :
    callName method path = callName other path' ↔ method = other ∧ pathName path = pathName path' := by
  have hfree : ∀ m ∈ httpMethods, ∀ n ∈ httpMethods, m <+: n → m = n := by decide
  rw [callName_eq h, callName_eq h']
  exact append_eq_append_iff (f := id) hfree h h'

private theorem pascalCase_append (h : method ∈ httpMethods) (t : Text) :
    pascalCase (method ++ t) = pascalCase method ++ raiseAfterSeparators t := by
  have hletters : ∀ m ∈ httpMethods, ∀ c ∈ m, isLetter c = true := by decide
  have hall := hletters _ h
  have hraise (cs : Text) (hcs : ∀ c ∈ cs, isLetter c = true) (u : Text) :
      raiseAfterSeparators (cs ++ u) = cs ++ raiseAfterSeparators u := by
    induction cs with
    | nil => rfl
    | cons c cs ih =>
      rw [List.cons_append, raiseAfterSeparators_cons (ne_separator_of_isLetter (hcs c List.mem_cons_self)),
        ih fun d hd => hcs d (List.mem_cons_of_mem _ hd)]
      rfl
  cases method with
  | nil => exact absurd h (by decide)
  | cons c cs =>
    have hcs : ∀ d ∈ cs, isLetter d = true := fun d hd => hall d (List.mem_cons_of_mem _ hd)
    have hself := hraise cs hcs []
    rw [List.append_nil] at hself
    rw [List.cons_append, pascalCase_cons (hall c List.mem_cons_self), pascalCase_cons (hall c List.mem_cons_self),
      hraise cs hcs, hself, raiseAfterSeparators, List.append_nil]
    rfl

/-- The interfaces of query parameters have one name exactly if the methods are the same and the paths add the same once
more characters are raised behind the separators that they add. -/
theorem paramsTypeName_eq_iff (h : method ∈ httpMethods) (h' : other ∈ httpMethods) :
    paramsTypeName (callName method path) = paramsTypeName (callName other path') ↔
      method = other ∧ raiseAfterSeparators (pathName path) = raiseAfterSeparators (pathName path') := by
  have hfree : ∀ m ∈ httpMethods, ∀ n ∈ httpMethods, pascalCase m <+: pascalCase n → m = n := by decide
  rw [paramsTypeName, paramsTypeName, callName_eq h, callName_eq h', List.append_cancel_right_eq, pascalCase_append h,
    pascalCase_append h']
  exact append_eq_append_iff hfree h h'

end Naming

/-! ## Names of a group -/

variable {settings : Settings} {aliases : Aliases} {document : Fields} {types : List NamedType}
  {operations : List Operation} {o : Operation}

/-- The operation has query parameters, for which an interface is declared. -/
def Operation.HasQuery (o : Operation) : Prop := o.queryParams ≠ []

instance : DecidablePred Operation.HasQuery := fun o => inferInstanceAs (Decidable (o.queryParams ≠ []))

/-- What the path of an operation adds to its names. -/
def Operation.addedName (settings : Settings) (o : Operation) : Text :=
  Naming.pathName (Naming.cleanPath o.path settings.pathPrefixes)

/-- The names that the types file of a group declares. -/
def ApiModel.declaredNames (settings : Settings) (model : ApiModel) (operations : List Operation) : List Text :=
  (typesFileDeclarations settings (ClientGen.groupTypes operations model.allTypes) operations).map Declaration.name

private theorem ApiModel.names_built {group : Text × List Operation}
    (hg : group ∈ (ofDocument settings aliases document).operations) (ho : o ∈ group.2) :
    o.cleanPath = Naming.cleanPath o.path settings.pathPrefixes ∧
      o.paramsType = if o.queryParams.isEmpty then none else some (Naming.paramsTypeName o.callName) := by
  obtain ⟨b, hb, rfl⟩ := List.mem_map.1 (Table.mem_of_mem_groupBy hg o ho).1
  obtain ⟨raw, -, rfl⟩ := List.mem_map.1 hb
  exact ⟨rfl, rfl⟩

theorem nodup_uniqueByName (types : List NamedType) : ((uniqueByName types).map NamedType.name).Nodup := by
  have hkeys : (uniqueByName types).map NamedType.name = (Table.ofEntries (types.map fun t => (t.name, t))).keys := by
    rw [uniqueByName, List.map_map]
    exact List.map_congr_left fun e he => (mem_entries_of_mem he).2.symm
  exact hkeys ▸ Table.nodup_keys_ofEntries _

theorem mem_uniqueByName_names {name : Text} :
    name ∈ (uniqueByName types).map NamedType.name ↔ name ∈ types.map NamedType.name := by
  constructor
  · intro h
    obtain ⟨t, ht, rfl⟩ := List.mem_map.1 h
    exact List.mem_map_of_mem (mem_of_mem_uniqueByName ht)
  · intro h
    obtain ⟨t, ht, rfl⟩ := List.mem_map.1 h
    obtain ⟨u, hu, hname⟩ := exists_mem_uniqueByName ht
    exact hname ▸ List.mem_map_of_mem hu

theorem declared_names (hparams : ∀ o ∈ operations,
      o.paramsType = if o.queryParams.isEmpty then none else some (Naming.paramsTypeName o.callName)) :
    (typesFileDeclarations settings types operations).map Declaration.name =
      (uniqueByName types).map NamedType.name ++
        (operations.filter (·.HasQuery)).map fun o => Naming.paramsTypeName o.callName := by
  rw [typesFileDeclarations, List.map_append, List.map_map]
  have htypes : (uniqueByName types).map (Declaration.name ∘ fun t => t.schema.declare settings t.name) =
      (uniqueByName types).map NamedType.name :=
    List.map_congr_left fun t _ => (Schema.declaredAs_declare settings t.name t.schema).name_eq
  rw [htypes]
  congr 1
  induction operations with
  | nil => rfl
  | cons o operations ih =>
    have hrest := ih fun o' ho' => hparams o' (List.mem_cons_of_mem _ ho')
    have hname := hparams o List.mem_cons_self
    by_cases hq : o.queryParams = []
    · have hnone : o.paramsDeclaration? settings = none := by
        simp [Operation.paramsDeclaration?, hname, hq]
      rw [List.filterMap_cons_none hnone, List.filter_cons_of_neg (by simp [Operation.HasQuery, hq]), hrest]
    · have hne : Naming.paramsTypeName o.callName ≠ [] := by simp [Naming.paramsTypeName]
      have hsome : o.paramsDeclaration? settings =
          some (paramsDeclaration settings (Naming.paramsTypeName o.callName) o.queryParams) :=
        paramsDeclaration?_eq_some_iff.2 ⟨_, by simp [hname, hq], hne, hq, rfl⟩
      rw [List.filterMap_cons_some hsome, List.filter_cons_of_pos (by simp [Operation.HasQuery, hq]), List.map_cons,
        List.map_cons, hrest]
      rfl

private theorem nodup_map_iff {α β γ : Type} {f : α → β} {g : α → γ} {as : List α}
    (h : ∀ a ∈ as, ∀ b ∈ as, (f a = f b ↔ g a = g b)) : (as.map f).Nodup ↔ (as.map g).Nodup := by
  rw [List.Nodup, List.Nodup, List.pairwise_map, List.pairwise_map]
  exact List.Pairwise.iff_of_mem fun ha hb => not_congr (h _ ha _ hb)

/-- The names that a group exports. Its request functions have different names exactly if no two of them have one method
and paths that add the same. Its types have different names exactly if the interfaces of query parameters do, which is a
matter of methods and paths too, and none of them has the name of a named type; among themselves the named types always
do. -/
theorem exported_names_distinct_iff (settings : Settings) (aliases : Aliases) (document : Fields) :
    let model := ApiModel.ofDocument settings aliases document
    ∀ group ∈ model.operations,
      let types := groupTypes group.2 model.allTypes
      ((group.2.map Operation.callName).Nodup ↔ (group.2.map fun o => (o.method, o.addedName settings)).Nodup) ∧
      ((model.declaredNames settings group.2).Nodup ↔
        ((group.2.filter (·.HasQuery)).map fun o => (o.method, Naming.raiseAfterSeparators (o.addedName settings))).Nodup ∧
          ∀ o ∈ group.2, o.HasQuery → Naming.paramsTypeName o.callName ∉ types.map NamedType.name) ∧
      ((uniqueByName types).map NamedType.name).Nodup := by
  intro model group hg types
  have hmethod {o : Operation} (ho : o ∈ group.2) : o.method ∈ Naming.httpMethods :=
    (ApiModel.isBuilt hg ho).method_known
  have hcall {o : Operation} (ho : o ∈ group.2) :
      o.callName = Naming.callName o.method (Naming.cleanPath o.path settings.pathPrefixes) :=
    (ApiModel.names_built hg ho).1 ▸ (ApiModel.isBuilt hg ho).call_named
  refine ⟨?_, ?_, nodup_uniqueByName types⟩
  · apply nodup_map_iff
    intro o ho o' ho'
    rw [hcall ho, hcall ho', Naming.callName_eq_iff (hmethod ho) (hmethod ho'), Prod.mk.injEq]
    rfl
  · have hqueries : ((group.2.filter (·.HasQuery)).map fun o => Naming.paramsTypeName o.callName).Nodup ↔
        ((group.2.filter (·.HasQuery)).map fun o => (o.method, Naming.raiseAfterSeparators (o.addedName settings))).Nodup := by
      apply nodup_map_iff
      intro o ho o' ho'
      have ho := (List.mem_filter.1 ho).1
      have ho' := (List.mem_filter.1 ho').1
      rw [hcall ho, hcall ho', Naming.paramsTypeName_eq_iff (hmethod ho) (hmethod ho'), Prod.mk.injEq]
      rfl
    rw [ApiModel.declaredNames, declared_names fun o ho => (ApiModel.names_built hg ho).2, List.nodup_append', hqueries]
    constructor
    · rintro ⟨-, hnodup, hdisjoint⟩
      refine ⟨hnodup, fun o ho hq hmem => hdisjoint (mem_uniqueByName_names.2 hmem) ?_⟩
      exact List.mem_map_of_mem (List.mem_filter.2 ⟨ho, by simpa using hq⟩)
    · rintro ⟨hnodup, hapart⟩
      refine ⟨nodup_uniqueByName types, hnodup, fun name hname hparams => ?_⟩
      obtain ⟨o, ho, rfl⟩ := List.mem_map.1 hparams
      obtain ⟨hmem, hq⟩ := List.mem_filter.1 ho
      exact hapart o hmem (by simpa using hq) (mem_uniqueByName_names.1 hname)

/-! ### Names that differ, and names that meet -/

/-- The object of an operation with some entries. -/
private def operationWith (entries : List (Text × Value)) : Value :=
  .object (entries.map fun (key, value) => (.text key, value))

private def queryEntry : Text × Value :=
  ("parameters", .list [operationWith [("name", .scalar (.text "q")), ("in", .scalar (.text "query"))]])

private def pathsEntry (paths : List (Text × Value)) : Scalar × Value := (.text "paths", operationWith paths)

/-- Two methods of one path, of which one has a query parameter. -/
theorem exported_names_distinct_of_pets :
    let pets := operationWith [("get", operationWith [queryEntry]), ("post", operationWith [])]
    let model := ApiModel.ofDocument {} {} [pathsEntry [("/pets", pets)]]
    model.operations.map (fun group => group.2.map Operation.callName) = [["getPets".toList, "postPets".toList]] ∧
      ∀ group ∈ model.operations, (group.2.map Operation.callName).Nodup ∧ (model.declaredNames {} group.2).Nodup := by
  intro pets model
  have hadded : model.operations.map (fun group => group.2.map fun o => (o.method, o.addedName {})) =
      [[("get".toList, "Pets".toList), ("post".toList, "Pets".toList)]] := by cbv
  have hqueries : model.operations.map (fun group => (group.2.filter (·.HasQuery)).map
      fun o => (o.method, Naming.raiseAfterSeparators (o.addedName {}))) = [[("get".toList, "Pets".toList)]] := by cbv
  have htypes : model.operations.map (fun group => (groupTypes group.2 model.allTypes).map NamedType.name) = [[]] := by
    cbv
  refine ⟨by cbv, fun group hg => ?_⟩
  obtain ⟨hcalls, hdeclared, -⟩ := exported_names_distinct_iff {} {} [pathsEntry [("/pets", pets)]] group hg
  have hgroup := List.mem_singleton.1 (hadded ▸ List.mem_map_of_mem hg)
  have hgroupQueries := List.mem_singleton.1 (hqueries ▸ List.mem_map_of_mem hg)
  have hgroupTypes := List.mem_singleton.1 (htypes ▸ List.mem_map_of_mem hg)
  refine ⟨hcalls.2 ?_, hdeclared.2 ⟨?_, fun o _ _ => ?_⟩⟩
  · rw [hgroup]
    decide
  · rw [hgroupQueries]
    decide
  · rw [hgroupTypes]
    exact List.not_mem_nil

/-- Two paths that differ in a separator give two request functions of one name. Where the names of the functions differ,
those of the interfaces of query parameters may meet, and an interface may have the name of a definition. -/
theorem exported_names_meet :
    let get (entries : List (Text × Value)) : Value := operationWith [("get", operationWith entries)]
    let paths := pathsEntry [("/a-b", get []), ("/a_b", get [])]
    let queryPaths := pathsEntry [("/a-b", get [queryEntry]), ("/a__b", get [queryEntry])]
    let schema := operationWith [("$ref", .scalar (.text "#/definitions/GetAParams"))]
    let response := operationWith [("200", operationWith [("schema", schema)])]
    let named : Fields := [pathsEntry [("/a", get [queryEntry, ("responses", response)])],
      (.text "definitions", operationWith [("GetAParams", operationWith [("type", .scalar (.text "object"))])])]
    let model := ApiModel.ofDocument {} {} [paths]
    let queryModel := ApiModel.ofDocument {} {} [queryPaths]
    let namedModel := ApiModel.ofDocument {} {} named
    model.operations.map (fun group => group.2.map Operation.callName) = [["getAB".toList, "getAB".toList]] ∧
    queryModel.operations.map (fun group => group.2.map Operation.callName) = [["getAB".toList, "getA_b".toList]] ∧
    queryModel.operations.map (fun group => queryModel.declaredNames {} group.2) =
      [["GetABParams".toList, "GetABParams".toList]] ∧
    ∃ group ∈ namedModel.operations, group.2.map Operation.callName = ["getA".toList] ∧
      ¬(namedModel.declaredNames {} group.2).Nodup := by
  intro get paths queryPaths schema response named model queryModel namedModel
  refine ⟨by cbv, by cbv, by cbv, ?_⟩
  obtain ⟨o, hops, hmethod, hpath, hrefs, hquery⟩ : ∃ o, namedModel.operations = [("default".toList, [o])] ∧
      o.method = "get".toList ∧ o.path = "/a".toList ∧ o.typeRefs = ["GetAParams".toList] ∧ o.HasQuery :=
    ⟨_, rfl, rfl, rfl, rfl, List.cons_ne_nil _ _⟩
  have hg : ("default".toList, [o]) ∈ namedModel.operations := hops ▸ List.mem_singleton_self _
  have ho : o ∈ [o] := List.mem_singleton_self o
  obtain ⟨hclean, hparams⟩ := ApiModel.names_built hg ho
  have hcall : o.callName = "getA" := by
    rw [(ApiModel.isBuilt hg ho).call_named, hclean, hmethod, hpath]
    cbv
  refine ⟨_, hg, by rw [List.map_singleton, hcall], fun hnodup => ?_⟩
  -- The definition is one of the types of the group, and the interface has its name.
  let type := namedType ({} : Settings).displayName "GetAParams" { Schema.empty with tag := some "object" }
  have hmet : (builtOperations {} {} named).flatMap BuiltOperation.met = ["#/definitions/GetAParams".toList] := rfl
  have hreached : type ∈ namedModel.allTypes := by
    refine ApiModel.perm_allTypes.mem_iff.2 (mem_closure_iff.2 ⟨_, _, ?_, rfl⟩)
    rw [hmet]
    exact .root (List.mem_singleton_self _) rfl
  have htype : type ∈ groupTypes [o] namedModel.allTypes := by
    refine (mem_groupTypes_iff ApiModel.nodup_allTypes).2 (.root hreached ?_)
    rw [List.flatMap_singleton, hrefs]
    exact List.mem_singleton_self _
  have hname : Naming.paramsTypeName o.callName = type.name := by
    rw [hcall]
    cbv
  have hinterface : type.name ∈ ([o].filter (·.HasQuery)).map fun o => Naming.paramsTypeName o.callName :=
    List.mem_map.2 ⟨o, List.mem_filter.2 ⟨ho, by simpa using hquery⟩, hname⟩
  rw [ApiModel.declaredNames, declared_names fun o' ho' => (ApiModel.names_built hg ho').2, List.nodup_append'] at hnodup
  exact hnodup.2.2 (mem_uniqueByName_names.2 (List.mem_map_of_mem htype)) hinterface

end ClientGen
