import ClientGen.Proofs.Api.ClosedGroups
import ClientGen.Proofs.Document.Fields
import ClientGen.Proofs.Project.AliasFile
import Mathlib.Data.List.ProdSigma
/-!
# The operations of a document and their groups

Every path and method under which a document has an operation of an accepted category is found in one place of the
model: in the group of the category, behind the operations that come before it in the document.
-/

namespace ClientGen

theorem Fields.child?_eq_some_iff {key : Text} {fields child : Fields} :
    fields.child? key = some child ↔ fields.get? key = some (.object child) := by
  have hfields (v : Value) : v.fields? = some child ↔ v = .object child := by
    cases v <;> simp [Value.fields?]
  simp [child?, Option.bind_eq_some_iff, hfields]

/-! ## Calls -/

abbrev Call := Text × Text

/-- The path and the method of an operation. -/
def Operation.call (o : Operation) : Call := (o.path, o.method)

/-- The path and the method of an operation that is not looked into. -/
def RawOperation.call (raw : RawOperation) : Call := (raw.path, raw.method)

/-- The objects under the paths of a document. -/
def documentPaths (document : Fields) : Fields := (document.child? "paths").getD []

/-- The operation object under a path and a method. -/
def operationAt? (document : Fields) (call : Call) : Option Fields :=
  ((documentPaths document).child? call.1).bind (·.child? call.2)

/-- The category of what stands under a path and a method. -/
def labelAt? (document : Fields) (call : Call) : Option Text := (operationAt? document call).map firstTag

/-- The paths and methods with an operation of an accepted category: path by path, and the methods in their order. -/
def acceptedCalls (settings : Settings) (document : Fields) : List Call :=
  (List.product (documentPaths document).textKeys Naming.httpMethods).filter fun call =>
    (labelAt? document call).any settings.acceptsTag

section Calls

variable {document : Fields}

/-- The operation under a path and a method, with the object of the path. -/
private def rawAt? (document : Fields) (call : Call) : Option RawOperation :=
  ((documentPaths document).child? call.1).bind fun item =>
    (item.child? call.2).map fun operation => ⟨call.1, item, call.2, operation⟩

private theorem rawAt?_eq_some {call : Call} {raw : RawOperation} (h : rawAt? document call = some raw) :
    raw.call = call ∧ operationAt? document call = some raw.operation := by
  obtain ⟨item, hitem, hraw⟩ := Option.bind_eq_some_iff.1 h
  obtain ⟨operation, hoperation, rfl⟩ := Option.map_eq_some_iff.1 hraw
  exact ⟨rfl, Option.bind_eq_some_iff.2 ⟨item, hitem, hoperation⟩⟩

private theorem map_rawAt? (call : Call) :
    (rawAt? document call).map RawOperation.operation = operationAt? document call := by
  unfold rawAt? operationAt?
  cases (documentPaths document).child? call.1 with
  | none => rfl
  | some item => simp [Function.comp_def]

/-- The operations under an entry of the paths. -/
private def operationsOfEntry (e : Scalar × Value) : List RawOperation :=
  match (Value.scalar e.1).text?, e.2.fields? with
  | some path, some item => operationsOfItem path item
  | _, _ => []

private theorem rawOperations_entries :
    rawOperations document = (documentPaths document).flatMap operationsOfEntry := by
  change (pathItems document).flatMap _ = _
  unfold pathItems
  change ((documentPaths document).filterMap _).flatMap _ = _
  induction documentPaths document with
  | nil => rfl
  | cons e es ih =>
    obtain ⟨k, v⟩ := e
    rw [List.flatMap_cons, ← ih, operationsOfEntry]
    cases hv : v.fields? with
    | none => simp [hv]
    | some item =>
      simp only [List.filterMap_cons, hv, Option.map_some, List.flatMap_cons]
      cases k <;> rfl

private theorem operationsOfEntry_eq (h : (documentPaths document).Distinct) {e : Scalar × Value}
    (he : e ∈ documentPaths document) :
    operationsOfEntry e =
      (List.product ((Value.scalar e.1).text?).toList Naming.httpMethods).filterMap (rawAt? document) := by
  obtain ⟨k, v⟩ := e
  unfold operationsOfEntry
  cases hk : (Value.scalar k).text? with
  | none => rfl
  | some path =>
    obtain rfl := Value.text?_scalar_eq_some_iff.1 hk
    have hpaths : List.product [path] Naming.httpMethods = Naming.httpMethods.map (path, ·) := by
      simp [List.product]
    have hget := h.get?_of_mem he
    rw [Option.toList_some, hpaths, List.filterMap_map]
    cases hv : v.fields? with
    | none => simp [rawAt?, Fields.child?, hget, hv, Function.comp_def]
    | some item => simp [rawAt?, Fields.child?, hget, hv, operationsOfItem, Function.comp_def]

theorem rawOperations_eq (h : (documentPaths document).Distinct) :
    rawOperations document =
      (List.product (documentPaths document).textKeys Naming.httpMethods).filterMap (rawAt? document) := by
  -- Keys are looked up in the whole object, whatever entries are left.
  have key : ∀ es : Fields, (∀ e ∈ es, e ∈ documentPaths document) →
      es.flatMap operationsOfEntry =
        (List.product (Fields.textKeys es) Naming.httpMethods).filterMap (rawAt? document) := by
    intro es
    induction es with
    | nil => exact fun _ => rfl
    | cons e es ih =>
      intro hes
      have ih := ih fun f hf => hes f (List.mem_cons_of_mem _ hf)
      have hkeys : Fields.textKeys (e :: es) = ((Value.scalar e.1).text?).toList ++ Fields.textKeys es := by
        rw [Fields.textKeys, List.filterMap_cons]
        cases (Value.scalar e.1).text? <;> rfl
      rw [List.flatMap_cons, ih, operationsOfEntry_eq h (hes e List.mem_cons_self), hkeys, ← List.filterMap_append]
      simp [List.product]
  exact rawOperations_entries.trans (key _ fun _ he => he)

theorem map_call_acceptedOperations (h : (documentPaths document).Distinct) (settings : Settings) :
    (acceptedOperations settings document).map RawOperation.call = acceptedCalls settings document := by
  rw [acceptedOperations, rawOperations_eq h, acceptedCalls]
  induction List.product (documentPaths document).textKeys Naming.httpMethods with
  | nil => rfl
  | cons call calls ih =>
    rw [List.filterMap_cons, List.filter_cons, labelAt?, ← map_rawAt?]
    cases hraw : rawAt? document call with
    | none => exact ih
    | some raw =>
      obtain ⟨hcall, -⟩ := rawAt?_eq_some hraw
      simp only [List.filter_cons, Option.map_some, Option.any_some]
      split
      · rw [List.map_cons, ih, hcall]
      · exact ih

theorem operationAt?_of_mem (h : (documentPaths document).Distinct) {settings : Settings} {raw : RawOperation}
    (hraw : raw ∈ acceptedOperations settings document) :
    operationAt? document raw.call = some raw.operation := by
  have hmem := (List.mem_filter.1 hraw).1
  rw [rawOperations_eq h] at hmem
  obtain ⟨call, -, hat⟩ := List.mem_filterMap.1 hmem
  obtain ⟨rfl, hoperation⟩ := rawAt?_eq_some hat
  exact hoperation

/-- The document has an operation object under a path that is a text and a method. -/
def HasOperation (document : Fields) (call : Call) (operation : Fields) : Prop :=
  ∃ item : Fields, (.text call.1, .object item) ∈ documentPaths document ∧ call.2 ∈ Naming.httpMethods ∧
    item.get? call.2 = some (.object operation)

theorem hasOperation_iff (h : (documentPaths document).Distinct) {call : Call} {operation : Fields} :
    HasOperation document call operation ↔
      call ∈ List.product (documentPaths document).textKeys Naming.httpMethods ∧
        operationAt? document call = some operation := by
  obtain ⟨path, method⟩ := call
  rw [List.pair_mem_product, Fields.mem_textKeys]
  simp only [operationAt?, Option.bind_eq_some_iff, Fields.child?_eq_some_iff]
  constructor
  · rintro ⟨item, hitem, hmethod, hget⟩
    exact ⟨⟨⟨_, hitem⟩, hmethod⟩, item, h.get?_of_mem hitem, hget⟩
  · rintro ⟨⟨⟨v, hv⟩, hmethod⟩, item, hitem, hget⟩
    obtain rfl := Option.some.inj ((h.get?_of_mem hv).symm.trans hitem)
    exact ⟨item, hv, hmethod, hget⟩

theorem mem_acceptedCalls (h : (documentPaths document).Distinct) {settings : Settings} {call : Call} :
    call ∈ acceptedCalls settings document ↔
      ∃ operation, HasOperation document call operation ∧ settings.acceptsTag (firstTag operation) = true := by
  simp only [acceptedCalls, List.mem_filter, labelAt?, Option.any_map, Option.any_eq_true,
    hasOperation_iff h]
  constructor
  · rintro ⟨hmem, operation, hat, haccepted⟩
    exact ⟨operation, ⟨hmem, hat⟩, haccepted⟩
  · rintro ⟨operation, ⟨hmem, hat⟩, haccepted⟩
    exact ⟨hmem, operation, hat, haccepted⟩

theorem nodup_acceptedCalls (h : (documentPaths document).Distinct) (settings : Settings) :
    (acceptedCalls settings document).Nodup := by
  have hmethods : Naming.httpMethods.Nodup := by decide
  exact (h.nodup_textKeys.product hmethods).filter _

theorem firstTag_mem_allTags {call : Call} {operation : Fields} (h : HasOperation document call operation) :
    firstTag operation ∈ allTags document := by
  obtain ⟨item, hitem, hmethod, hget⟩ := h
  have hpath : (Scalar.text call.1, item) ∈ pathItems document :=
    List.mem_filterMap.2 ⟨_, hitem, rfl⟩
  have hraw : (⟨[], item, call.2, operation⟩ : RawOperation) ∈
      (pathItems document).flatMap fun entry => operationsOfItem [] entry.2 :=
    List.mem_flatMap.2 ⟨_, hpath, List.mem_filterMap.2 ⟨_, hmethod, by rw [hget]; rfl⟩⟩
  exact List.mem_mergeSort.2 (mem_firstOccurrences.2 (List.mem_map.2 ⟨_, hraw, rfl⟩))

/-! ## Groups -/

/-- The group of what stands under a path and a method. -/
def groupAt? (aliases : Aliases) (document : Fields) (call : Call) : Option Text :=
  (labelAt? document call).map aliases.groupOf

private theorem map_call_builtOperations (h : (documentPaths document).Distinct) (settings : Settings)
    (aliases : Aliases) :
    ((builtOperations settings aliases document).map BuiltOperation.operation).map Operation.call =
      acceptedCalls settings document := by
  rw [← map_call_acceptedOperations h, builtOperations, List.map_map, List.map_map]
  rfl

private theorem groupAt?_call (h : (documentPaths document).Distinct) {settings : Settings} {aliases : Aliases}
    {o : Operation} (ho : o ∈ (builtOperations settings aliases document).map BuiltOperation.operation) :
    groupAt? aliases document o.call = some o.group := by
  obtain ⟨b, hb, rfl⟩ := List.mem_map.1 ho
  obtain ⟨raw, hraw, rfl⟩ := List.mem_map.1 hb
  have hat : operationAt? document raw.call = some raw.operation := operationAt?_of_mem h hraw
  change groupAt? aliases document raw.call = _
  rw [groupAt?, labelAt?, hat]
  rfl

/-- Every operation of an accepted category is filed once: the groups stand in the order in which they are first used,
and the operations of a group in the order of the document. Whether accepted or not, its category is registered. -/
theorem operations_filed_once (settings : Settings) (aliases : Aliases) (h : (documentPaths document).Distinct) :
    let model := ApiModel.ofDocument settings aliases document
    let calls := acceptedCalls settings document
    (∀ call, call ∈ calls ↔ ∃ operation, HasOperation document call operation ∧
      settings.acceptsTag (firstTag operation) = true) ∧
    calls.Nodup ∧ (model.operations.flatMap fun group => group.2.map Operation.call).Perm calls ∧
    model.operations.keys = firstOccurrences (calls.filterMap (groupAt? aliases document)) ∧
    (∀ group ∈ model.operations,
      group.2.map Operation.call = calls.filter fun call => groupAt? aliases document call = some group.1) ∧
    ∀ call operation, HasOperation document call operation →
      groupAt? aliases document call = some (aliases.groupOf (firstTag operation)) ∧
        (aliases.register (allTags document)).mapping.has (firstTag operation) = true := by
  intro model calls
  obtain ⟨operations, hmodel, hcalls, hgroup⟩ : ∃ operations,
      model.operations = Table.groupBy Operation.group operations ∧ operations.map Operation.call = calls ∧
        ∀ o ∈ operations, groupAt? aliases document o.call = some o.group :=
    ⟨(builtOperations settings aliases document).map BuiltOperation.operation, rfl,
      map_call_builtOperations h settings aliases, fun o ho => groupAt?_call h ho⟩
  refine ⟨fun call => mem_acceptedCalls h, nodup_acceptedCalls h settings, ?_, ?_, ?_, ?_⟩
  · rw [← hcalls, ← List.map_flatMap, hmodel]
    exact (Table.perm_groupBy Operation.group operations).map _
  · have hgroups : calls.filterMap (groupAt? aliases document) = operations.map Operation.group := by
      rw [← hcalls, List.filterMap_map, ← List.filterMap_eq_map]
      exact List.filterMap_congr hgroup
    rw [hmodel, Table.keys_groupBy, hgroups]
  · intro group hg
    rw [hmodel, Table.groupBy_eq] at hg
    obtain ⟨name, -, rfl⟩ := List.mem_map.1 hg
    have hfilter : operations.filter (fun o => o.group = name) =
        operations.filter fun o => groupAt? aliases document o.call = some name := by
      refine List.filter_congr fun o ho => ?_
      simp [hgroup o ho]
    calc (operations.filter fun o => o.group = name).map Operation.call
        = (operations.filter fun o => groupAt? aliases document o.call = some name).map Operation.call := by
          rw [hfilter]
      _ = (operations.map Operation.call).filter fun call => groupAt? aliases document call = some name := by
          rw [List.filter_map]
          rfl
      _ = calls.filter fun call => groupAt? aliases document call = some name := by rw [hcalls]
  · intro call operation hoperation
    refine ⟨?_, Aliases.has_register (.inr (firstTag_mem_allTags hoperation))⟩
    rw [groupAt?, labelAt?, ((hasOperation_iff h).1 hoperation).2]
    rfl

/-- Two categories of one group, a category that is left out, a path that is a number and an entry without an object. -/
theorem operations_filed_once_of_pets :
    let operation (tag : Text) : Value := .object [(.text "tags", .list [.text tag])]
    let paths : Fields := Fields.ofEntries
      [(.text "/b", .object [(.text "post", operation "pets"), (.text "get", operation "users")]),
        (.int 5, .object [(.text "get", operation "pets")]),
        (.text "/a", .object
          [(.text "put", .null), (.text "get", operation "Pets"), (.text "post", operation "shops")])]
    let document : Fields := [(.text "paths", .object paths)]
    let settings : Settings := { excludedTags := ["users"] }
    let model := ApiModel.ofDocument settings {} document
    (documentPaths document).Distinct ∧ model.operations.keys = ["pets".toList, "shops".toList] ∧
      (∀ group ∈ model.operations, group.1 = "pets".toList →
        group.2.map Operation.call = [("/b".toList, "post".toList), ("/a".toList, "get".toList)]) ∧
      (Aliases.register {} (allTags document)).mapping.has "users" = true := by
  intro operation paths document settings model
  have hdistinct : (documentPaths document).Distinct := Fields.distinct_ofEntries _
  obtain ⟨-, -, -, hkeys, hgroups, hregistered⟩ := operations_filed_once settings {} hdistinct
  refine ⟨hdistinct, ?_, ?_, ?_⟩
  · rw [hkeys]
    decide
  · intro group hg hname
    rw [hgroups group hg, hname]
    decide
  · have hget : HasOperation document ("/b", "get") [(.text "tags", .list [.text "users"])] :=
      ⟨[(.text "post", operation "pets"), (.text "get", operation "users")], List.mem_cons_self, by decide, rfl⟩
    exact (hregistered _ _ hget).2

end Calls

end ClientGen
