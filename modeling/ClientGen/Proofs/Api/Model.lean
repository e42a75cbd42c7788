import ClientGen.Api.Model
import ClientGen.Proofs.TypeScript.FunctionsFile
/-!
# Operations of a model

The methods and the names of the operations of a model are made by the library, so that only what the
document says is left to be asked for.
-/

namespace ClientGen

open Text

/-- An operation as it is built: its method is one of those that are looked for, and its names are made from
the method and the path. -/
structure Operation.IsBuilt (o : Operation) : Prop where
  method_known : o.method ∈ Naming.httpMethods
  call_named : o.callName = Naming.callName o.method o.cleanPath
  params_named : ∀ t ∈ o.paramsType, t = Naming.paramsTypeName o.callName

theorem method_mem_of_mem_rawOperations {document : Fields} {raw : RawOperation}
    (h : raw ∈ rawOperations document) : raw.method ∈ Naming.httpMethods := by
  obtain ⟨⟨path, item⟩, -, hraw⟩ := List.mem_flatMap.1 h
  cases path with
  | text t =>
    obtain ⟨method, hmethod, hop⟩ := List.mem_filterMap.1 hraw
    obtain ⟨operation, -, rfl⟩ := Option.map_eq_some_iff.1 hop
    exact hmethod
  | _ => cases hraw

theorem buildOperation_isBuilt {settings : Settings} {definitions : Table Schema} {group : Text}
    {raw : RawOperation} {parts : OperationParts} (h : raw.method ∈ Naming.httpMethods) :
    (buildOperation settings definitions group raw parts).operation.IsBuilt where
  method_known := h
  call_named := rfl
  params_named t ht := by
    unfold buildOperation at ht
    dsimp only at ht
    split at ht
    · cases ht
    · exact (Option.some.inj ht).symm

theorem ApiModel.isBuilt {settings : Settings} {aliases : Aliases} {document : Fields}
    {group : Text × List Operation} (hg : group ∈ (ofDocument settings aliases document).operations)
    {o : Operation} (ho : o ∈ group.2) : o.IsBuilt := by
  obtain ⟨hmem, -⟩ := Table.mem_of_mem_groupBy hg o ho
  obtain ⟨built, hbuilt, rfl⟩ := List.mem_map.1 hmem
  obtain ⟨raw, hraw, rfl⟩ := List.mem_map.1 hbuilt
  exact buildOperation_isBuilt (method_mem_of_mem_rawOperations (List.mem_filter.1 hraw).1)

theorem ApiModel.operations_eq_nil {document : Fields} (h : allTags document = []) (settings : Settings)
    (aliases : Aliases) : (ofDocument settings aliases document).operations = [] := by
  have hraw : rawOperations document = [] := by
    apply List.eq_nil_iff_forall_not_mem.2
    intro raw hraw
    obtain ⟨⟨path, item⟩, hitem, hmem⟩ := List.mem_flatMap.1 hraw
    cases path with
    | text t =>
      obtain ⟨method, hmethod, hop⟩ := List.mem_filterMap.1 hmem
      obtain ⟨operation, hget, rfl⟩ := Option.map_eq_some_iff.1 hop
      have hoperation : (⟨[], item, method, operation⟩ : RawOperation) ∈
          (pathItems document).flatMap fun entry => operationsOfItem [] entry.2 :=
        List.mem_flatMap.2 ⟨_, hitem, List.mem_filterMap.2 ⟨method, hmethod, by rw [hget]; rfl⟩⟩
      have htag : firstTag operation ∈ allTags document :=
        List.mem_mergeSort.2 (mem_firstOccurrences.2 (List.mem_map.2 ⟨_, hoperation, rfl⟩))
      rw [h] at htag
      cases htag
    | _ => cases hmem
  have hbuilt : acceptedOperations settings document = [] := by rw [acceptedOperations, hraw, List.filter_nil]
  unfold ofDocument
  dsimp only
  rw [hbuilt]
  rfl

theorem ApiModel.ofDocument_congr {a b : Aliases} (h : a.mapping = b.mapping) (settings : Settings)
    (document : Fields) : ofDocument settings a document = ofDocument settings b document := by
  cases a
  cases b
  subst h
  rfl

/-- What is asked of the documented parts of an operation. -/
structure Operation.IsPlain (o : Operation) : Prop where
  path_plain : ∀ c ∈ o.cleanPath, IsPathChar c ∧ c ≠ '\r'
  params_plain : ∀ p ∈ o.pathParams, '\n' ∉ p.name
  types_named : ∀ t ∈ [o.bodyType, o.responseType].filterMap Operation.named?, IsTypeName t
  summary_open : ∀ s ∈ o.summary, ¬"*/".toList <:+: s

namespace Operation

variable {o : Operation}

private theorem lower_mem_httpMethods {m : Text} (h : m ∈ Naming.httpMethods) :
    lower m ∈ Naming.httpMethods := by
  have hlower : ∀ m ∈ Naming.httpMethods, lower m ∈ Naming.httpMethods := by decide
  exact hlower m h

theorem IsBuilt.isIdentifier_paramsType (hb : o.IsBuilt) {t : Text} (ht : o.paramsType = some t) :
    isIdentifier t = true := by
  rw [hb.params_named t ht, hb.call_named]
  exact Naming.isIdentifier_paramsTypeName (lower_mem_httpMethods hb.method_known)

/-- The request function of a built operation is legible when its documented parts are plain. -/
theorem IsBuilt.isLegible (hb : o.IsBuilt) (hp : o.IsPlain) : o.IsLegible where
  method_known := lower_mem_httpMethods hb.method_known
  call_named := ⟨o.cleanPath, hb.call_named⟩
  path_plain c hc := (hp.path_plain c hc).1
  params_plain := hp.params_plain
  types_named t ht := by
    obtain ⟨type, hmem, ht⟩ := List.mem_filterMap.1 ht
    rcases List.mem_cons.1 hmem with rfl | hmem
    · exact .identifier (hb.isIdentifier_paramsType (named?_eq_some_iff.1 ht).1)
    · exact hp.types_named t (List.mem_filterMap.2 ⟨type, hmem, ht⟩)
  summary_open := hp.summary_open

end Operation

end ClientGen
