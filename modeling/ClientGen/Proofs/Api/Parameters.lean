import ClientGen.Proofs.Api.ClosedGroups
import ClientGen.Proofs.TypeScript.Interpolation
/-!
# Parameters of paths and operations

An operation has the parameters of its path and then its own. They are told apart, by name and location in the model and
by their identifiers in the code, only if the document tells them apart: none takes the place of another one.
-/

namespace ClientGen

open Text

/-! ## The parameters of an operation -/

/-- The name and the location of a parameter. -/
def Parameter.key (p : Parameter) : Text × Text := (p.name, p.location)

/-- The parameters of path and query in a list of parameter objects. -/
def Dialect.readParameters (dialect : Dialect) (document : Fields) (nodes : List Value) : List Parameter :=
  match dialect with
  | .swagger2 => (swaggerParts document nodes []).parameters
  | .openapi3 => (openapiParts document nodes []).parameters

section Levels

variable {dialect : Dialect} {document : Fields} {nodes : List Value}

theorem Dialect.readParameters_append (as bs : List Value) :
    dialect.readParameters document (as ++ bs) =
      dialect.readParameters document as ++ dialect.readParameters document bs := by
  cases dialect <;> simp only [readParameters, swaggerParts, openapiParts, List.filterMap_append, List.map_append]

/-- The parameters that an operation shares with the other operations of its path come before its own. -/
theorem Dialect.parts_parameters (raw : RawOperation) :
    (dialect.parts document raw).parameters =
      dialect.readParameters document (parameterList raw.item) ++
        dialect.readParameters document (parameterList raw.operation) := by
  rw [← readParameters_append]
  cases dialect <;> rfl

theorem Dialect.location_of_mem_readParameters {p : Parameter} (h : p ∈ dialect.readParameters document nodes) :
    p.location = "path".toList ∨ p.location = "query".toList := by
  have hlocation {node : Fields} {location : Text} (hl : signatureLocation? node = some location) :
      location = "path".toList ∨ location = "query".toList := by
    simpa using (Option.filter_eq_some_iff.1 hl).2
  have hread (source : Fields → Fields) {nodes : List Fields} (h : p ∈ (nodes.filterMap fun node =>
      (signatureLocation? node).map (node, ·)).map fun x => parameterOf x.1 (source x.1) x.2) :
      p.location = "path".toList ∨ p.location = "query".toList := by
    obtain ⟨⟨node, location⟩, hmem, rfl⟩ := List.mem_map.1 h
    obtain ⟨_, -, hnode⟩ := List.mem_filterMap.1 hmem
    obtain ⟨_, hl, heq⟩ := Option.map_eq_some_iff.1 hnode
    cases heq
    exact hlocation hl
  cases dialect with
  | swagger2 => exact hread id h
  | openapi3 => exact hread (fun node => (node.child? "schema").getD []) h

end Levels

namespace Operation

/-- The parameters of an operation in its path and its query. -/
def parameters (o : Operation) : List Parameter := o.pathParams ++ o.queryParams

/-! ## Signatures -/

/-- The names that the signature of a request function binds, with their types. -/
def bindings (o : Operation) : List (Text × Text) :=
  o.pathParams.map (fun p => (Naming.paramIdentifier p.name, ((Keyword.ofTag? p.tag).getD .string).render)) ++
    ((named? o.bodyType).map ("data".toList, ·)).toList ++ ((named? o.paramsType).map ("params".toList, ·)).toList

theorem signature_eq (o : Operation) : o.signature = o.bindings.map fun b => b.1 ++ ": ".toList ++ b.2 := by
  unfold signature bindings
  rw [List.map_append, List.map_append, List.map_map]
  cases named? o.bodyType <;> cases named? o.paramsType <;> rfl

/-- The names in a signature are distinct exactly if the identifiers of the path parameters are, and none of them is the
name of the body or of the query. -/
theorem nodup_bindings_iff (o : Operation) :
    (o.bindings.map Prod.fst).Nodup ↔ o.pathIdentifiers.Nodup ∧
      (named? o.bodyType ≠ none → "data".toList ∉ o.pathIdentifiers) ∧
      (named? o.paramsType ≠ none → "params".toList ∉ o.pathIdentifiers) := by
  have hpath : (o.pathParams.map fun p => (Naming.paramIdentifier p.name,
      ((Keyword.ofTag? p.tag).getD .string).render)).map Prod.fst = o.pathIdentifiers := List.map_map
  have hsingle (ids : List Text) (t : Text) : (ids ++ [t]).Nodup ↔ ids.Nodup ∧ t ∉ ids := by
    rw [List.nodup_append_comm, List.singleton_append, List.nodup_cons, and_comm]
  unfold bindings
  rw [List.map_append, List.map_append, hpath]
  cases named? o.bodyType <;> cases named? o.paramsType
  · simp
  · simpa using hsingle _ _
  · simpa using hsingle _ _
  · have hboth := (hsingle (o.pathIdentifiers ++ ["data".toList]) "params".toList).trans
      (and_congr_left' (hsingle o.pathIdentifiers "data".toList))
    simpa [and_assoc] using hboth

end Operation

/-! ## Both levels -/

variable {settings : Settings} {aliases : Aliases} {document : Fields}

/-- The parameters that an operation shares with the other operations of its path. -/
def RawOperation.shared (document : Fields) (raw : RawOperation) : List Parameter :=
  (Dialect.ofDocument document).readParameters document (parameterList raw.item)

/-- The parameters that an operation has for itself. -/
def RawOperation.own (document : Fields) (raw : RawOperation) : List Parameter :=
  (Dialect.ofDocument document).readParameters document (parameterList raw.operation)

private theorem exists_rawOperation {group : Text × List Operation} {o : Operation}
    (hg : group ∈ (ApiModel.ofDocument settings aliases document).operations) (ho : o ∈ group.2) :
    ∃ raw ∈ acceptedOperations settings document, o.path = raw.path ∧ o.method = raw.method ∧
      o.pathParams = (raw.shared document ++ raw.own document).filter (·.location = "path".toList) ∧
      o.queryParams = (raw.shared document ++ raw.own document).filter (·.location = "query".toList) := by
  obtain ⟨b, hb, rfl⟩ := List.mem_map.1 (Table.mem_of_mem_groupBy hg o ho).1
  obtain ⟨raw, hraw, rfl⟩ := List.mem_map.1 hb
  have hparts : ((Dialect.ofDocument document).parts document raw).parameters =
      raw.shared document ++ raw.own document := Dialect.parts_parameters raw
  refine ⟨raw, hraw, rfl, rfl, ?_⟩
  rw [← hparts]
  exact ⟨rfl, rfl⟩

private theorem perm_parameters {ps : List Parameter}
    (h : ∀ p ∈ ps, p.location = "path".toList ∨ p.location = "query".toList) :
    (ps.filter (·.location = "path".toList) ++ ps.filter (·.location = "query".toList)).Perm ps := by
  have hquery : ps.filter (·.location = "query".toList) = ps.filter fun p => !decide (p.location = "path".toList) := by
    refine List.filter_congr fun p hp => ?_
    rcases h p hp with hl | hl <;> rw [hl] <;> decide
  rw [hquery]
  exact List.filter_append_perm _ ps

private theorem not_nodup_bindings {shared own : List Parameter} {o : Operation}
    (hpath : o.pathParams = (shared ++ own).filter (·.location = "path".toList)) {p : Parameter} (hp : p ∈ own)
    (hl : p.location = "path".toList) (hkey : p.key ∈ shared.map Parameter.key) : ¬(o.bindings.map Prod.fst).Nodup := by
  obtain ⟨q, hq, hqkey⟩ := List.mem_map.1 hkey
  obtain ⟨hname, hlocation⟩ := Prod.ext_iff.1 hqkey
  intro hnodup
  have hids := (o.nodup_bindings_iff.1 hnodup).1
  rw [Operation.pathIdentifiers, hpath, List.filter_append, List.map_append] at hids
  refine (List.nodup_append.1 hids).2.2 _ (List.mem_map_of_mem (a := q) ?_) _ (List.mem_map_of_mem (a := p) ?_) ?_
  · have hpathq : q.location = "path".toList := hlocation.trans hl
    exact List.mem_filter.2 ⟨hq, by simpa using hpathq⟩
  · exact List.mem_filter.2 ⟨hp, by simpa using hl⟩
  · exact congrArg Naming.paramIdentifier hname

/-- An operation of the model has the parameters of its path and then its own. If each of the two lists tells its
parameters apart, the operation does exactly if no parameter is in both: none of them gives way, and one of the path is
bound twice. The names in the signature are distinct exactly if the identifiers of the path parameters are, and differ
from those of the body and the query; with distinct identifiers every token of the path is exchanged once. -/
theorem parameters_of_levels (settings : Settings) (aliases : Aliases) (document : Fields) :
    ∀ group ∈ (ApiModel.ofDocument settings aliases document).operations, ∀ o ∈ group.2,
      ∃ raw ∈ acceptedOperations settings document, o.path = raw.path ∧ o.method = raw.method ∧
        o.pathParams = (raw.shared document ++ raw.own document).filter (·.location = "path".toList) ∧
        o.queryParams = (raw.shared document ++ raw.own document).filter (·.location = "query".toList) ∧
        (((raw.shared document).map Parameter.key).Nodup → ((raw.own document).map Parameter.key).Nodup →
          ((o.parameters.map Parameter.key).Nodup ↔
            ∀ p ∈ raw.own document, p.key ∉ (raw.shared document).map Parameter.key)) ∧
        (∀ p ∈ raw.own document, p.location = "path".toList → p.key ∈ (raw.shared document).map Parameter.key →
          ¬(o.bindings.map Prod.fst).Nodup) ∧
        o.signature = o.bindings.map (fun b => b.1 ++ ": ".toList ++ b.2) ∧
        ((o.bindings.map Prod.fst).Nodup ↔ o.pathIdentifiers.Nodup ∧
          (Operation.named? o.bodyType ≠ none → "data".toList ∉ o.pathIdentifiers) ∧
          (Operation.named? o.paramsType ≠ none → "params".toList ∉ o.pathIdentifiers)) ∧
        ((∀ p ∈ o.pathParams, Operation.IsTokenName p.name) → o.pathIdentifiers.Nodup →
          o.requestPath =
            o.pathQuote :: substitute (Operation.tokenOfAny? o.pathParams) o.cleanPath ++ [o.pathQuote]) := by
  intro group hg o ho
  obtain ⟨raw, hraw, hp, hm, hpath, hquery⟩ := exists_rawOperation hg ho
  refine ⟨raw, hraw, hp, hm, hpath, hquery, fun hshared hown => ?_, fun p hp hl hkey => ?_, o.signature_eq,
    o.nodup_bindings_iff, fun hnames hdistinct => ?_⟩
  · have hlocated : ∀ p ∈ raw.shared document ++ raw.own document,
        p.location = "path".toList ∨ p.location = "query".toList := by
      intro p hp
      rcases List.mem_append.1 hp with hp | hp
      · exact Dialect.location_of_mem_readParameters hp
      · exact Dialect.location_of_mem_readParameters hp
    -- The operation has the parameters by location, and each of them once.
    have hkeys : (o.parameters.map Parameter.key).Nodup ↔
        ((raw.shared document ++ raw.own document).map Parameter.key).Nodup := by
      rw [Operation.parameters, hpath, hquery]
      exact ((perm_parameters hlocated).map Parameter.key).nodup_iff
    rw [hkeys, List.map_append, List.nodup_append]
    constructor
    · rintro ⟨-, -, hapart⟩ p hp hkey
      exact hapart _ hkey _ (List.mem_map_of_mem hp) rfl
    · intro hapart
      refine ⟨hshared, hown, fun a ha b hb => ?_⟩
      obtain ⟨p, hp, rfl⟩ := List.mem_map.1 hb
      exact ne_of_mem_of_not_mem ha (hapart p hp)
  · exact not_nodup_bindings hpath hp hl hkey
  · rw [Operation.requestPath_eq, Operation.pathText_eq hnames hdistinct]

private theorem cleanPath_pet :
    Naming.cleanPath "/pets/\x7bid\x7d" ["/api/v1", "/api"] = "/pets/\x7bid\x7d" := by
  have hsorted : Naming.longestFirst ["/api/v1", "/api"] = ["/api/v1".toList, "/api".toList] :=
    List.mergeSort_of_pairwise (by decide)
  rw [Naming.cleanPath, hsorted]
  decide

/-- A path parameter and a query parameter on different levels are told apart, and the one token is exchanged. -/
theorem parameters_of_levels_of_pet :
    let parameter (name location : Text) : Value := .object [(.text "name", .text name), (.text "in", .text location)]
    let get : Value := .object [(.text "parameters", .list [parameter "id" "query"])]
    let item : Value := .object [(.text "parameters", .list [parameter "id" "path"]), (.text "get", get)]
    let document : Fields := [(.text "paths", .object [(.text "/pets/\x7bid\x7d", item)])]
    ∃ o : Operation, (ApiModel.ofDocument {} {} document).operations = [("default".toList, [o])] ∧
      (o.parameters.map Parameter.key).Nodup ∧ (o.bindings.map Prod.fst).Nodup ∧
      o.requestPath = "\x60/pets/$\x7bid\x7d\x60" := by
  intro parameter get item document
  obtain ⟨raw, hraws, hshared, hown⟩ : ∃ raw, acceptedOperations {} document = [raw] ∧
      (raw.shared document).map Parameter.key = [("id".toList, "path".toList)] ∧
      (raw.own document).map Parameter.key = [("id".toList, "query".toList)] := ⟨_, rfl, rfl, rfl⟩
  obtain ⟨o, hoperations, hparameters, hids, hbody, hparams, hclean, hquote⟩ : ∃ o : Operation,
      (ApiModel.ofDocument {} {} document).operations = [("default".toList, [o])] ∧
        o.pathParams = [{ name := "id", location := "path" }] ∧ o.pathIdentifiers = ["id".toList] ∧ o.bodyType = none ∧
        "params".toList ∉ o.pathIdentifiers ∧ o.cleanPath = "/pets/\x7bid\x7d" ∧ o.pathQuote = '\x60' :=
    ⟨_, rfl, rfl, rfl, rfl, by decide, cleanPath_pet, rfl⟩
  have hg : ("default".toList, [o]) ∈ (ApiModel.ofDocument {} {} document).operations := by
    rw [hoperations]
    exact List.mem_singleton_self _
  obtain ⟨raw', hraw, -, -, -, -, hkeys, -, -, hbound, hrequest⟩ :=
    parameters_of_levels {} {} document _ hg o (List.mem_singleton_self o)
  rw [hraws] at hraw
  obtain rfl := List.mem_singleton.1 hraw
  have htoken : ∀ p ∈ o.pathParams, Operation.IsTokenName p.name := by
    rw [hparameters]
    intro p hp
    rw [List.mem_singleton.1 hp]
    exact ⟨by decide, by decide, by decide⟩
  have hdistinct : o.pathIdentifiers.Nodup := hids ▸ List.nodup_singleton _
  refine ⟨o, hoperations, ?_, ?_, ?_⟩
  · rw [hkeys (hshared ▸ List.nodup_singleton _) (hown ▸ List.nodup_singleton _), hshared]
    intro p hp
    have hkey : p.key ∈ (raw'.own document).map Parameter.key := List.mem_map_of_mem hp
    rw [hown] at hkey
    rw [List.mem_singleton.1 hkey]
    decide
  · exact hbound.2 ⟨hdistinct, fun hb => absurd (by simp [hbody, Operation.named?]) hb, fun _ => hparams⟩
  · rw [hrequest htoken hdistinct, hparameters, hclean, hquote]
    decide

/-- A path parameter on both levels is in the operation twice; it is bound twice and put in twice. -/
theorem parameters_of_levels_repeated :
    let parameter (type : Text) : Value :=
      .object [(.text "name", .text "id"), (.text "in", .text "path"), (.text "type", .text type)]
    let get : Value := .object [(.text "parameters", .list [parameter "string"])]
    let item : Value := .object [(.text "parameters", .list [parameter "integer"]), (.text "get", get)]
    let document : Fields := [(.text "paths", .object [(.text "/pets/\x7bid\x7d", item)])]
    ∃ o : Operation, (ApiModel.ofDocument {} {} document).operations = [("default".toList, [o])] ∧
      o.parameters.map Parameter.key = [("id".toList, "path".toList), ("id".toList, "path".toList)] ∧
      o.signature = ["id: number".toList, "id: string".toList] ∧
      o.requestPath = "\x60/pets/$$\x7bid\x7d\x60" := by
  intro parameter get item document
  obtain ⟨o, hoperations, hkeys, hsignature, hparameters, hclean⟩ : ∃ o : Operation,
      (ApiModel.ofDocument {} {} document).operations = [("default".toList, [o])] ∧
        o.parameters.map Parameter.key = [("id".toList, "path".toList), ("id".toList, "path".toList)] ∧
        o.signature = ["id: number".toList, "id: string".toList] ∧
        o.pathParams = ["integer".toList, "string".toList].map
          (fun type => { name := "id", location := "path", tag := some type }) ∧
        o.cleanPath = "/pets/\x7bid\x7d" :=
    ⟨_, rfl, rfl, rfl, rfl, cleanPath_pet⟩
  refine ⟨o, hoperations, hkeys, hsignature, ?_⟩
  rw [Operation.requestPath_eq, Operation.pathQuote, Operation.pathText, hparameters, hclean]
  decide

end ClientGen
