import ClientGen.Proofs.Api.ExportedNames
import ClientGen.Proofs.Api.Parameters
/-!
# Bound names

A request function binds its own name and the names of its parameters. They are identifiers, unless a path parameter has
a line feed behind its name, but nothing keeps them from being reserved words, and different parameters may meet in one
identifier.
-/

namespace ClientGen

open Text

namespace Source

/-- The reserved words of a module, which is always strict. -/
def reservedWords : List Text :=
  ["await", "break", "case", "catch", "class", "const", "continue", "debugger", "default", "delete", "do", "else", "enum",
    "export", "extends", "false", "finally", "for", "function", "if", "implements", "import", "in", "instanceof",
    "interface", "let", "new", "null", "package", "private", "protected", "public", "return", "static", "super", "switch",
    "this", "throw", "true", "try", "typeof", "var", "void", "while", "with", "yield"]

/-- A name that may be bound: an identifier that is not reserved. -/
def IsBindable (name : Text) : Prop := isIdentifier name = true ∧ name ∉ reservedWords

instance : DecidablePred IsBindable := fun name =>
  inferInstanceAs (Decidable (isIdentifier name = true ∧ name ∉ reservedWords))

theorem isIdentifier_of_mem_reservedWords : ∀ name ∈ reservedWords, isIdentifier name = true ∧ '_' ∉ name := by
  decide

end Source

open Source

namespace Naming

variable {name method path : Text}

/-! ## Names of parameters -/

private theorem underscoreRuns_of_identChars (h : ∀ c ∈ name, isIdentChar c = true) : underscoreRuns name = name := by
  unfold underscoreRuns
  induction name with
  | nil => rfl
  | cons c name ih =>
    obtain ⟨hc, hname⟩ := List.forall_mem_cons.1 h
    rw [underscoreRuns.go, if_pos hc, ih hname]

private theorem underscoreRuns_of_notMem (h : '_' ∉ underscoreRuns name) : underscoreRuns name = name := by
  unfold underscoreRuns at h ⊢
  induction name with
  | nil => rfl
  | cons c name ih =>
    rw [underscoreRuns.go] at h ⊢
    split at h
    · next hc =>
      rw [if_pos hc, ih fun hmem => h (List.mem_cons_of_mem _ hmem)]
    · exact absurd List.mem_cons_self h

/-- No reserved word has an underscore, so only a name without one and without other signs can become such a word. -/
theorem paramIdentifier_mem_reservedWords_iff :
    paramIdentifier name ∈ reservedWords ↔
      name ∈ reservedWords ∨ isBareName name = false ∧ camelCase name ∈ reservedWords := by
  have hbare {t : Text} (ht : t ∈ reservedWords) : isBareName t = true :=
    isBareName_iff.2 (.inl (isIdentifier_of_mem_reservedWords t ht).1)
  by_cases h : isBareName name = true
  · simp [paramIdentifier_of_isBareName h, h]
  · have hname : name ∉ reservedWords := fun hmem => h (hbare hmem)
    have hruns : underscoreRuns (camelCase name) ∈ reservedWords ↔ camelCase name ∈ reservedWords := by
      constructor
      · intro hmem
        rwa [underscoreRuns_of_notMem (isIdentifier_of_mem_reservedWords _ hmem).2] at hmem
      · intro hmem
        rwa [underscoreRuns_of_identChars (isIdentChar_of_mem (isIdentifier_of_mem_reservedWords _ hmem).1)]
    have hunderscore (t : Text) : '_' :: t ∉ reservedWords := fun hmem =>
      (isIdentifier_of_mem_reservedWords _ hmem).2 List.mem_cons_self
    rw [paramIdentifier, if_neg h]
    dsimp only
    split
    · simp [hruns, hname, h]
    · next hnot =>
      have hcamel : camelCase name ∉ reservedWords := fun hmem => hnot (hbare (hruns.2 hmem))
      simp [hunderscore, hname, hcamel]

theorem isIdentifier_paramIdentifier_iff :
    isIdentifier (paramIdentifier name) = true ↔ ¬∃ line, name = line ++ ['\n'] ∧ isIdentifier line = true := by
  by_cases h : isBareName name = true
  · rw [paramIdentifier_of_isBareName h]
    constructor
    · rintro hname ⟨line, rfl, -⟩
      exact absurd (isIdentChar_of_mem hname '\n' (by simp)) (by decide)
    · exact (isBareName_iff.1 h).resolve_right
  · exact iff_of_true (isIdentifier_paramIdentifier h) fun hline => h (isBareName_iff.2 (.inr hline))

/-! ## Names of request functions -/

theorem callName_mem_reservedWords_iff (h : method ∈ httpMethods) :
    callName method path ∈ reservedWords ↔ method = "delete".toList ∧ pathName path = [] := by
  have hword : ∀ m ∈ httpMethods, ∀ word ∈ reservedWords, m <+: word → m = "delete".toList ∧ word = m := by decide
  rw [callName_eq h]
  constructor
  · intro hmem
    obtain ⟨hdelete, hall⟩ := hword method h _ hmem (List.prefix_append _ _)
    exact ⟨hdelete, List.append_right_eq_self.1 hall⟩
  · rintro ⟨rfl, hnone⟩
    rw [hnone]
    decide

end Naming

/-! ## Request functions -/

namespace Operation

/-- The names that a request function binds may be bound, and its parameters are told apart. -/
structure BindsLegalNames (o : Operation) : Prop where
  callName : IsBindable o.callName
  parameters : ∀ b ∈ o.bindings, IsBindable b.1
  distinct : (o.bindings.map Prod.fst).Nodup

variable {o : Operation}

theorem forall_isBindable_bindings_iff :
    (∀ b ∈ o.bindings, IsBindable b.1) ↔ ∀ name ∈ o.pathNames, IsBindable (Naming.paramIdentifier name) := by
  have hdata : IsBindable "data".toList := by decide
  have hparams : IsBindable "params".toList := by decide
  rw [bindings, List.forall_mem_append, List.forall_mem_append]
  constructor
  · rintro ⟨⟨hpath, -⟩, -⟩ name hname
    obtain ⟨p, hp, rfl⟩ := List.mem_map.1 hname
    exact hpath _ (List.mem_map_of_mem hp)
  · intro hpath
    refine ⟨⟨fun b hb => ?_, fun b hb => ?_⟩, fun b hb => ?_⟩
    · obtain ⟨p, hp, rfl⟩ := List.mem_map.1 hb
      exact hpath _ (List.mem_map_of_mem hp)
    · obtain ⟨type, -, rfl⟩ := Option.map_eq_some_iff.1 (Option.mem_toList.1 hb)
      exact hdata
    · obtain ⟨type, -, rfl⟩ := Option.map_eq_some_iff.1 (Option.mem_toList.1 hb)
      exact hparams

theorem nodup_pathIdentifiers_iff (h : o.pathNames.Nodup) : o.pathIdentifiers.Nodup ↔
    ∀ name ∈ o.pathNames, ∀ other ∈ o.pathNames, Naming.isBareName name = false →
      Naming.paramIdentifier name = Naming.paramIdentifier other → name = other := by
  rw [pathIdentifiers_eq_map, List.nodup_map_iff_inj_on h]
  constructor
  · exact fun hinj name hname other hother _ => hinj name hname other hother
  · intro hchanged name hname other hother heq
    cases hn : Naming.isBareName name with
    | false => exact hchanged name hname other hother hn heq
    | true =>
      cases ho : Naming.isBareName other with
      | false => exact (hchanged other hother name hname ho heq.symm).symm
      | true => rwa [Naming.paramIdentifier_of_isBareName hn, Naming.paramIdentifier_of_isBareName ho] at heq

/-- A path parameter whose name may be bound once it is an identifier: no line feed stands behind it, and it neither is
a reserved word nor becomes one. -/
structure IsBindableParameter (name : Text) : Prop where
  no_lineFeed : ¬∃ line, name = line ++ ['\n'] ∧ isIdentifier line = true
  not_reserved : name ∉ reservedWords
  not_camelCase : Naming.isBareName name = false → Naming.camelCase name ∉ reservedWords

theorem isBindable_paramIdentifier_iff {name : Text} :
    IsBindable (Naming.paramIdentifier name) ↔ IsBindableParameter name := by
  rw [IsBindable, Naming.isIdentifier_paramIdentifier_iff, Naming.paramIdentifier_mem_reservedWords_iff, not_or, not_and]
  exact ⟨fun ⟨hline, hreserved, hcamel⟩ => ⟨hline, hreserved, hcamel⟩, fun h => ⟨h.1, h.2, h.3⟩⟩

theorem IsBuilt.isBindable_callName_iff (h : o.IsBuilt) :
    IsBindable o.callName ↔ ¬(o.method = "delete".toList ∧ Naming.pathName o.cleanPath = []) := by
  have hlower : ∀ m ∈ Naming.httpMethods, lower m = m := by decide
  have hmethod : lower o.method ∈ Naming.httpMethods := (hlower _ h.method_known).symm ▸ h.method_known
  rw [h.call_named, IsBindable, Naming.callName_mem_reservedWords_iff h.method_known]
  exact and_iff_right (Naming.isIdentifier_callName hmethod)

end Operation

/-- A request function is declared with its name and its parameters. With different names for the path parameters, the
names that it binds are legal and distinct exactly if the path of a `delete` adds something to its name, every path
parameter becomes an identifier that is not reserved, no name is changed into the identifier of another one, and none
into the name of a body or a query that is bound as well. -/
theorem bound_names_legal_iff (settings : Settings) (aliases : Aliases) (document : Fields) :
    ∀ group ∈ (ApiModel.ofDocument settings aliases document).operations, ∀ o ∈ group.2,
      "export const ".toList ++ o.callName ++ " = (".toList ++
          join ", " (o.bindings.map fun b => b.1 ++ ": ".toList ++ b.2) ++ ") => \x7b".toList ∈ o.functionLines settings ∧
        (o.pathNames.Nodup → (o.BindsLegalNames ↔
          ¬(o.method = "delete".toList ∧ Naming.pathName o.cleanPath = []) ∧
          (∀ name ∈ o.pathNames, Operation.IsBindableParameter name) ∧
          (∀ name ∈ o.pathNames, ∀ other ∈ o.pathNames, Naming.isBareName name = false →
            Naming.paramIdentifier name = Naming.paramIdentifier other → name = other) ∧
          (Operation.named? o.bodyType ≠ none → "data".toList ∉ o.pathIdentifiers) ∧
          (Operation.named? o.paramsType ≠ none → "params".toList ∉ o.pathIdentifiers))) := by
  intro group hg o ho
  refine ⟨?_, fun hnames => ?_⟩
  · rw [← o.signature_eq, Operation.functionLines]
    exact List.mem_append_left _ (List.mem_append_left _ (List.mem_append_right _ List.mem_cons_self))
  · have hcall := (ApiModel.isBuilt hg ho).isBindable_callName_iff
    have hdistinct := o.nodup_bindings_iff.trans (and_congr_left' (Operation.nodup_pathIdentifiers_iff hnames))
    have hparameters : (∀ b ∈ o.bindings, IsBindable b.1) ↔ ∀ name ∈ o.pathNames, Operation.IsBindableParameter name :=
      Operation.forall_isBindable_bindings_iff.trans
        (forall₂_congr fun _ _ => Operation.isBindable_paramIdentifier_iff)
    constructor
    · exact fun h => ⟨hcall.1 h.callName, hparameters.1 h.parameters, hdistinct.1 h.distinct⟩
    · exact fun ⟨h, hpath, hapart⟩ => ⟨hcall.2 h, hparameters.2 hpath, hdistinct.2 hapart⟩

/-- A parameter of a path whose name has a separator. -/
theorem bound_names_legal_of_users :
    let parameter : Value := .object [(.text "name", .text "user-id"), (.text "in", .text "path")]
    let delete : Value := .object [(.text "parameters", .list [parameter])]
    let document : Fields :=
      [(.text "paths", .object [(.text "/users/\x7buser-id\x7d", .object [(.text "delete", delete)])])]
    ∃ o : Operation, (ApiModel.ofDocument {} {} document).operations = [("default".toList, [o])] ∧
      o.signature = ["userId: string".toList] ∧ o.pathNames.Nodup ∧ o.BindsLegalNames := by
  intro parameter delete document
  obtain ⟨o, hoperations, hsignature, hnames, hids, hbody, hparams, hadded⟩ : ∃ o : Operation,
      (ApiModel.ofDocument {} {} document).operations = [("default".toList, [o])] ∧
        o.signature = ["userId: string".toList] ∧ o.pathNames = ["user-id".toList] ∧
        o.pathIdentifiers = ["userId".toList] ∧ Operation.named? o.bodyType = none ∧
        Operation.named? o.paramsType = none ∧ Naming.pathName o.cleanPath = "UsersByUserId".toList :=
    ⟨_, rfl, rfl, rfl, rfl, rfl, rfl, by cbv⟩
  have hg : ("default".toList, [o]) ∈ (ApiModel.ofDocument {} {} document).operations := by
    rw [hoperations]
    exact List.mem_singleton_self _
  have hnodup : o.pathNames.Nodup := hnames ▸ List.nodup_singleton _
  have hlegal := (bound_names_legal_iff {} {} document _ hg o (List.mem_singleton_self o)).2 hnodup
  refine ⟨o, hoperations, hsignature, hnodup, hlegal.2 ⟨fun h => ?_, ?_, ?_, fun h => ?_, fun h => ?_⟩⟩
  · rw [hadded] at h
    exact absurd h.2 (by decide)
  · rw [hnames, List.forall_mem_singleton, ← Operation.isBindable_paramIdentifier_iff]
    decide
  · rw [hnames, List.forall_mem_singleton, List.forall_mem_singleton]
    exact fun _ _ => rfl
  · exact absurd hbody h
  · exact absurd hparams h

/-- Reserved words are bound for parameters and for a request function, a line feed stands behind a name, and two names
meet in one identifier. -/
theorem bound_names_not_legal :
    let parameter (name : Text) : Value := .object [(.text "name", .text name), (.text "in", .text "path")]
    let document (path method : Text) (names : List Text) : Fields :=
      [(.text "paths", .object [(.text path,
        .object [(.text method, .object [(.text "parameters", .list (names.map parameter))])])])]
    let operations (path method : Text) (names : List Text) : List (Text × List Operation) :=
      (ApiModel.ofDocument {} {} (document path method names)).operations
    ∃ ofClass ofRoot ofLine ofUser : Operation,
      (operations "/\x7bclass\x7d" "get" ["class"] = [("default".toList, [ofClass])] ∧
        ofClass.pathNames = ["class".toList] ∧ ofClass.signature = ["class: string".toList] ∧
        ¬ofClass.BindsLegalNames) ∧
      (operations "/" "delete" [] = [("default".toList, [ofRoot])] ∧ ofRoot.callName = "delete".toList ∧
        ¬ofRoot.BindsLegalNames) ∧
      (operations "/\x7bid\x7d" "get" ["id\n"] = [("default".toList, [ofLine])] ∧
        ofLine.signature = ["id\n: string".toList] ∧ ¬ofLine.BindsLegalNames) ∧
      (operations "/" "get" ["user-id", "userId"] = [("default".toList, [ofUser])] ∧
        ofUser.pathNames.Nodup ∧ ofUser.signature = ["userId: string".toList, "userId: string".toList] ∧
        ¬ofUser.BindsLegalNames) := by
  intro parameter document operations
  obtain ⟨ofClass, hclass, hclassNames, hclassSignature, hclassBindings⟩ : ∃ o : Operation,
      operations "/\x7bclass\x7d" "get" ["class"] = [("default".toList, [o])] ∧ o.pathNames = ["class".toList] ∧
        o.signature = ["class: string".toList] ∧ o.bindings = [("class".toList, "string".toList)] :=
    ⟨_, rfl, rfl, rfl, rfl⟩
  obtain ⟨ofRoot, hroot, hcall⟩ : ∃ o : Operation,
      operations "/" "delete" [] = [("default".toList, [o])] ∧ o.callName = "delete".toList := ⟨_, rfl, by cbv⟩
  obtain ⟨ofLine, hline, hlineSignature, hlineBindings⟩ : ∃ o : Operation,
      operations "/\x7bid\x7d" "get" ["id\n"] = [("default".toList, [o])] ∧
        o.signature = ["id\n: string".toList] ∧ o.bindings = [("id\n".toList, "string".toList)] :=
    ⟨_, rfl, rfl, rfl⟩
  obtain ⟨ofUser, huser, huserNames, huserSignature, huserBindings⟩ : ∃ o : Operation,
      operations "/" "get" ["user-id", "userId"] = [("default".toList, [o])] ∧
        o.pathNames = ["user-id".toList, "userId".toList] ∧
        o.signature = ["userId: string".toList, "userId: string".toList] ∧
        o.bindings.map Prod.fst = ["userId".toList, "userId".toList] := ⟨_, rfl, rfl, rfl, rfl⟩
  refine ⟨ofClass, ofRoot, ofLine, ofUser, ⟨hclass, hclassNames, hclassSignature, fun h => ?_⟩,
    ⟨hroot, hcall, fun h => ?_⟩, ⟨hline, hlineSignature, fun h => ?_⟩, huser, ?_, huserSignature, fun h => ?_⟩
  · exact (h.parameters _ (hclassBindings ▸ List.mem_singleton_self _)).2 (by decide)
  · exact (hcall ▸ h.callName).2 (by decide)
  · exact absurd (h.parameters _ (hlineBindings ▸ List.mem_singleton_self _)).1 (by decide)
  · rw [huserNames]
    decide
  · have hdistinct := h.distinct
    rw [huserBindings] at hdistinct
    exact absurd hdistinct (by decide)

end ClientGen
