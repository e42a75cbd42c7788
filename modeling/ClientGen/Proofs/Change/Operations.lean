import ClientGen.Change.Basic
import ClientGen.Proofs.TypeScript.ExportedFunctions
import ClientGen.Proofs.TypeScript.FunctionsFile
/-!
# Changes of request functions

Of a functions file that was merged into whatever was there before, only the request functions of the
last generation are compared, and their names are found exactly.
-/

namespace ClientGen

open Text Source

variable {settings : Settings} {operations : List Operation}

theorem ofText?_content_mergeFunctionsFile {generated : Text} {parts : MarkedFile}
    (h : MarkedFile.ofText? generated = some parts) (existing : Option Text) :
    ∃ f, MarkedFile.ofText? (mergeFunctionsFile existing generated).content = some f ∧
      f.region = parts.region := by
  cases existing with
  | none => exact ⟨parts, h, rfl⟩
  | some old =>
    cases hold : MarkedFile.ofText? old with
    | none =>
      have hcontent : (mergeFunctionsFile (some old) generated).content = generated := by
        simp only [mergeFunctionsFile, hold]
      exact ⟨parts, by rw [hcontent, h], rfl⟩
    | some kept => exact ⟨_, ofText?_mergeFunctionsFile hold h, rfl⟩

theorem exportedFunctions_comparedPart (hl : ∀ o ∈ operations, o.IsLegible)
    (hu : ∀ o ∈ operations, o.IsUnmarked) (hc : IsDotted settings.requestClient)
    (hi : HasNoMarker settings.requestImport) (existing : Option Text) :
    exportedFunctions (comparedPart
        (mergeFunctionsFile existing (renderFunctionsFile settings operations)).content) =
      Table.ofEntries (operations.map fun o => (o.callName, o.functionCode settings)) := by
  obtain ⟨f, hf, hregion⟩ :=
    ofText?_content_mergeFunctionsFile (ofText?_renderFunctionsFile hl hu hc hi) existing
  simp only [comparedPart, hf, hregion]
  exact exportedFunctions_functionsText hl hc

/-- The changes between operations and a file in which the functions of others are compared. -/
theorem detectOperationChanges_of_functions {t : Text}
    (h : exportedFunctions (comparedPart t) =
      Table.ofEntries (operations.map fun o => (o.callName, o.functionCode settings)))
    (later : List Operation) :
    detectOperationChanges later (some t) =
      ((later.filter fun o => o.callName ∉ operations.map Operation.callName).map fun o =>
        { callName := o.callName, kind := .added, path := o.path, method := o.method }) ++
      ((firstOccurrences (operations.map Operation.callName)).filter
        (· ∉ later.map Operation.callName)).map ({ callName := ·, kind := .removed }) := by
  have hkeys : (exportedFunctions (comparedPart t)).keys =
      firstOccurrences (operations.map Operation.callName) := by
    rw [h, Table.keys_ofEntries, List.map_map]
    rfl
  have hhas (o : Operation) : (exportedFunctions (comparedPart t)).has o.callName = true ↔
      o.callName ∈ operations.map Operation.callName := by
    rw [Table.has_iff, hkeys, mem_firstOccurrences]
  have hfilter : (later.filter fun o => !(exportedFunctions (comparedPart t)).has o.callName) =
      later.filter fun o => o.callName ∉ operations.map Operation.callName := by
    refine List.filter_congr fun o _ => ?_
    rw [Bool.eq_iff_iff, Bool.not_eq_true', ← Bool.not_eq_true, hhas, decide_eq_true_eq]
  simp only [detectOperationChanges, Option.map_some, Option.getD_some, hkeys, hfilter]

/-- Operations have no changes against a file in which their own functions are compared. -/
theorem detectOperationChanges_self {t : Text}
    (h : exportedFunctions (comparedPart t) =
      Table.ofEntries (operations.map fun o => (o.callName, o.functionCode settings))) :
    detectOperationChanges operations (some t) = [] := by
  have hpresent : (operations.filter fun o => o.callName ∉ operations.map Operation.callName) = [] := by
    apply List.filter_eq_nil_iff.2
    intro o ho
    simpa using ⟨o, ho, rfl⟩
  have hgone : (firstOccurrences (operations.map Operation.callName)).filter
      (· ∉ operations.map Operation.callName) = [] := by
    apply List.filter_eq_nil_iff.2
    intro name hname
    simpa using mem_firstOccurrences.1 hname
  rw [detectOperationChanges_of_functions h, hpresent, hgone]
  rfl

/-- After a generation, the changes are the operations without a function of their name, and the functions
without an operation of their name. What stood in the file before plays no part. -/
theorem detectOperationChanges_mergeFunctionsFile {operations : List Operation}
    (hl : ∀ o ∈ operations, o.IsLegible) (hu : ∀ o ∈ operations, o.IsUnmarked)
    (hc : IsDotted settings.requestClient) (hi : HasNoMarker settings.requestImport)
    (later : List Operation) (existing : Option Text) :
    let merged := (mergeFunctionsFile existing (renderFunctionsFile settings operations)).content
    let names := operations.map Operation.callName
    detectOperationChanges later (some merged) =
        ((later.filter fun o => o.callName ∉ names).map fun o =>
          { callName := o.callName, kind := .added, path := o.path, method := o.method }) ++
        ((firstOccurrences names).filter (· ∉ later.map Operation.callName)).map
          ({ callName := ·, kind := .removed }) ∧
      ∀ change ∈ detectOperationChanges later (some merged),
        change.kind = .removed → change.callName ∈ names := by
  intro merged names
  have hchanges := detectOperationChanges_of_functions
    (exportedFunctions_comparedPart hl hu hc hi existing) later
  refine ⟨hchanges, ?_⟩
  intro change hmem hkind
  rw [hchanges, List.mem_append, List.mem_map, List.mem_map] at hmem
  rcases hmem with ⟨o, -, rfl⟩ | ⟨name, hname, rfl⟩
  · cases hkind
  · exact mem_firstOccurrences.1 (List.mem_filter.1 hname).1

/-- A comment opener in a path, quotes in a summary and a function written by hand before the region. -/
theorem detectOperationChanges_after_regeneration :
    let o : Operation :=
      { method := "get", cleanPath := "/a//b/*/\x7bid\x7d", callName := "getABById"
        summary := some "It's \"one\"", responseType := some "Item[]", pathParams := [{ name := "id" }] }
    let later : Operation := { method := "post", path := "/items", callName := "postItems" }
    let existing : Text := "export const own = () => \x7b\x7d\n".toList ++ startMarker ++ endMarker
    detectOperationChanges [later]
        (some (mergeFunctionsFile (some existing) (renderFunctionsFile {} [o, o])).content) =
      [{ callName := "postItems", kind := .added, path := "/items", method := "post" },
        { callName := "getABById", kind := .removed }] := by
  intro o later existing
  have hl : ∀ x ∈ [o, o], x.IsLegible := by
    have ho : o.IsLegible := by
      refine ⟨by decide, ⟨"/a//b/*/\x7bid\x7d", by decide⟩, ?_, by decide, ?_, ?_⟩
      · unfold IsPathChar
        decide
      · intro t ht
        have htypes : o.signatureTypes = ["Item".toList ++ "[]".toList] := by decide
        rw [htypes, List.mem_singleton] at ht
        exact ht ▸ .array (.identifier (by decide))
      · intro s hs
        cases hs
        decide
    simpa using ho
  have hu : ∀ x ∈ [o, o], x.IsUnmarked := by
    have ho : o.IsUnmarked := by
      refine ⟨?_, ?_⟩
      · intro s hs
        cases hs
        unfold HasNoMarker
        decide
      · unfold HasNoMarker
        decide
    simpa using ho
  have hc : IsDotted ({} : Settings).requestClient := by
    unfold IsDotted
    decide
  have hi : HasNoMarker ({} : Settings).requestImport := by
    unfold HasNoMarker
    decide
  rw [(detectOperationChanges_mergeFunctionsFile hl hu hc hi [later] (some existing)).1]
  decide

end ClientGen
