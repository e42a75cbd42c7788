import ClientGen.Proofs.Api.ClosedGroups
import ClientGen.Proofs.TypeScript.Imports
/-!
# Imported names

A functions file imports the types of its signatures by the texts of these types. The name of a definition never begins
with a small letter, so that of the built-in types it can only meet the generic ones. Such a name is not imported; every
other one is, behind however many brackets of arrays it stands.
-/

namespace ClientGen

open Text

/-! ## Names of definitions -/

namespace Text

def IsSmall (c : Char) : Prop := 97 ≤ c.toNat ∧ c.toNat ≤ 122

instance : DecidablePred IsSmall := fun c => inferInstanceAs (Decidable (97 ≤ c.toNat ∧ c.toNat ≤ 122))

private theorem not_isSmall_ofNat {n : Nat} (h : n < 97 ∨ 122 < n) : ¬IsSmall (Char.ofNat n) := by
  by_cases hv : n.isValidChar
  · have hcode : (Char.ofNat n).toNat = n := by
      rw [Char.ofNat, dif_pos hv]
      rfl
    rw [IsSmall, hcode]
    omega
  · rw [Char.ofNat, dif_neg hv]
    decide

private theorem not_isSmall_caseShift? {n m : Nat} (h : caseShift? upperRuns n = some m) : m < 97 ∨ 122 < m := by
  have hruns : ∀ r ∈ upperRuns, (r.last : Int) + r.shift < 97 ∨ 122 < (r.first : Int) + r.shift := by decide +kernel
  obtain ⟨r, hr, rfl⟩ := Option.map_eq_some_iff.1 h
  have hbounds := List.find?_some hr
  simp only [Bool.and_eq_true, decide_eq_true_eq] at hbounds
  have hrun := hruns r (List.mem_of_find?_eq_some hr)
  omega

theorem upperChar_begins (c : Char) : ∃ d ds, upperChar c = d :: ds ∧ ¬IsSmall d := by
  have hascii : ∀ c : Char, c.toNat < 128 → ¬IsSmall c.toUpper := forall_toNat_lt (by decide)
  have hexpansions : ∀ e ∈ upperExpansions, ∃ n ∈ e.2.head?, n < 97 ∨ 122 < n := by decide +kernel
  unfold upperChar
  by_cases hlt : c.toNat < 0x80
  · exact ⟨_, _, if_pos hlt, hascii c hlt⟩
  rw [if_neg hlt]
  cases hcodes : upperExpansions.lookup c.toNat with
  | some codes =>
    obtain ⟨before, behind, htable, -⟩ := List.lookup_eq_some_iff.1 hcodes
    obtain ⟨n, hn, hsmall⟩ := hexpansions (c.toNat, codes) (htable ▸ List.mem_append_right _ List.mem_cons_self)
    obtain ⟨ns, rfl⟩ := List.head?_eq_some_iff.1 hn
    exact ⟨_, _, rfl, not_isSmall_ofNat hsmall⟩
  | none =>
    refine ⟨_, _, rfl, ?_⟩
    cases hshift : caseShift? upperRuns c.toNat with
    | none =>
      rintro ⟨-, hhi⟩
      change c.toNat ≤ 122 at hhi
      omega
    | some n => exact not_isSmall_ofNat (not_isSmall_caseShift? hshift)

end Text

namespace Naming

theorem head?_dropSuffix (name : Text) (suffixes : List Text) : (dropSuffix name suffixes).head? = name.head? := by
  induction suffixes with
  | nil => rfl
  | cons suffix suffixes ih =>
    rw [dropSuffix]
    split
    · next h =>
      cases hrest : beforeEnd? suffix name with
      | none => exact ih
      | some rest =>
        obtain rfl := beforeEnd?_eq_some_iff.1 hrest
        have hne : rest ≠ [] := by
          rintro rfl
          simp at h
        exact (List.head?_append_of_ne_nil _ hne).symm
    · exact ih

theorem not_isSmall_displayName (suffixes : List Text) (definition : Text) :
    ∀ c ∈ (displayName suffixes definition).head?, ¬IsSmall c := by
  rw [displayName, head?_dropSuffix, pascalCase]
  cases camelCase (lastPart definition) with
  | nil => simp [capitalize]
  | cons c cs =>
    obtain ⟨d, ds, hupper, hsmall⟩ := upperChar_begins c
    simpa [capitalize, hupper] using hsmall

end Naming

/-- The built-in types that take other types. -/
def genericTypes : List Text := ["Record", "Partial", "Required", "Readonly", "Pick", "Omit", "Array"]

theorem displayName_mem_builtinTypes_iff (settings : Settings) (definition : Text) :
    settings.displayName definition ∈ builtinTypes ↔ settings.displayName definition ∈ genericTypes := by
  have hbuiltin : ∀ t ∈ builtinTypes, t ∉ genericTypes → t.head?.any (IsSmall ·) = true := by decide
  have hgeneric : genericTypes ⊆ builtinTypes := by decide
  refine ⟨fun h => ?_, fun h => hgeneric h⟩
  by_contra hnot
  obtain ⟨c, hc, hsmall⟩ := (Option.any_eq_true _ _).1 (hbuiltin _ h hnot)
  exact Naming.not_isSmall_displayName settings.typeSuffixes definition c hc (of_decide_eq_true hsmall)

/-! ## Imports of a group -/

/-- A type in the brackets of as many arrays as given. -/
def arrayType : Nat → Text → Text
  | 0, type => type
  | depth + 1, type => arrayType depth type ++ "[]"

theorem importOf_arrayType (depth : Nat) (type : Text) : importOf (arrayType depth type) = importOf type := by
  induction depth with
  | zero => rfl
  | succ depth ih => rw [arrayType, importOf_array, ih]

theorem arrayType_ne_nil (depth : Nat) {type : Text} (h : type ≠ []) : arrayType depth type ≠ [] := by
  cases depth with
  | zero => exact h
  | succ depth => exact List.append_ne_nil_of_right_ne_nil _ (by decide)

theorem importOf_of_isIdentifier {n : Text} (h : isIdentifier n = true) :
    importOf n = if n ∈ builtinTypes then none else some n := by
  simp [importOf, elementType_of_isIdentifier h, Naming.isBareName, h]

theorem not_mem_builtinTypes_of_imported {operations : List Operation} {name : Text}
    (h : name ∈ importedTypes operations) : name ∉ builtinTypes := by
  obtain ⟨o, -, t, -, himport⟩ := mem_importedTypes.1 h
  simp only [importOf, Bool.and_eq_true, decide_eq_true_eq] at himport
  split at himport
  · next hname => exact Option.some.inj himport ▸ hname.2
  · cases himport

/-- Where an operation takes or returns the type of a definition, or arrays of it, the name of this type is imported
exactly if it is none of the generic built-in types. The functions file then has the line that imports it. -/
theorem signature_type_imported_iff (settings : Settings) (aliases : Aliases) (document : Fields) :
    ∀ group ∈ (ApiModel.ofDocument settings aliases document).operations, ∀ o ∈ group.2,
      ∀ (definition : Text) (depth : Nat), isIdentifier (settings.displayName definition) = true →
        let name := settings.displayName definition
        o.bodyType = some (arrayType depth name) ∨ o.responseType = some (arrayType depth name) →
          (name ∈ importedTypes group.2 ↔ name ∉ genericTypes) ∧
          (name ∉ genericTypes →
            ∃ tail, renderFunctionsFile settings group.2 =
              withLine (functionsFileHead settings) (typeImportLine (importedTypes group.2)) tail) := by
  intro group hg o ho definition depth hident name htype
  have hbuiltin : name ∈ builtinTypes ↔ name ∈ genericTypes := displayName_mem_builtinTypes_iff settings definition
  have himported (hnot : name ∉ genericTypes) : name ∈ importedTypes group.2 := by
    refine mem_importedTypes.2 ⟨o, ho, arrayType depth name, ?_, ?_⟩
    · have hne := arrayType_ne_nil depth (ne_nil_of_isIdentifier hident)
      rcases htype with htype | htype
      · exact List.mem_filterMap.2 ⟨o.bodyType, by simp, Operation.named?_eq_some_iff.2 ⟨htype, hne⟩⟩
      · exact List.mem_filterMap.2 ⟨o.responseType, by simp, Operation.named?_eq_some_iff.2 ⟨htype, hne⟩⟩
    · rw [importOf_arrayType, importOf_of_isIdentifier hident, if_neg (hbuiltin.not.2 hnot)]
  refine ⟨⟨fun h hgeneric => ?_, himported⟩, fun hnot => ?_⟩
  · exact not_mem_builtinTypes_of_imported h (hbuiltin.2 hgeneric)
  · exact renderFunctionsFile_withLine settings (List.ne_nil_of_mem (himported hnot))

/-- A body with a list of users. -/
theorem signature_type_imported_of_users :
    let users : Value := .object [(.text "type", .text "array"),
      (.text "items", .object [(.text "$ref", .text "#/definitions/User")])]
    let body : Value := .object [(.text "in", .text "body"), (.text "name", .text "users"), (.text "schema", users)]
    let operation : Value := .object [(.text "parameters", .list [body])]
    let document : Fields := [(.text "paths", .object [(.text "/users", .object [(.text "post", operation)])]),
      (.text "definitions", .object [(.text "User", .object [(.text "type", .text "object")])])]
    let model := ApiModel.ofDocument {} {} document
    ∃ group ∈ model.operations, "User".toList ∈ importedTypes group.2 ∧
      ∃ tail, renderFunctionsFile {} group.2 =
        withLine (functionsFileHead {}) (typeImportLine (importedTypes group.2)) tail := by
  intro users body operation document model
  obtain ⟨o, hops, htype⟩ : ∃ o, model.operations = [("default".toList, [o])] ∧ o.bodyType = some "User[]".toList :=
    ⟨_, rfl, rfl⟩
  have hg : ("default".toList, [o]) ∈ model.operations := hops ▸ List.mem_singleton_self _
  have huser : ({} : Settings).displayName "User" = "User" := by decide
  obtain ⟨himported, hline⟩ := signature_type_imported_iff {} {} document _ hg o (List.mem_singleton_self o) "User" 1
    (by decide) (.inl htype)
  exact ⟨_, hg, huser ▸ himported.2 (by decide), hline (by decide)⟩

/-- A definition that is named like a generic built-in type is returned, and not imported. -/
theorem signature_type_not_imported :
    let schema : Value := .object [(.text "$ref", .text "#/definitions/Record")]
    let operation : Value :=
      .object [(.text "responses", .object [(.text "200", .object [(.text "schema", schema)])])]
    let document : Fields := [(.text "paths", .object [(.text "/", .object [(.text "get", operation)])]),
      (.text "definitions", .object [(.text "Record", .object [(.text "type", .text "object")])])]
    let model := ApiModel.ofDocument {} {} document
    HasClosedReferences {} document ∧
    ∃ group ∈ model.operations, ∃ o ∈ group.2, o.responseType = some "Record".toList ∧
      ({} : Settings).displayName "Record" = "Record" ∧ "Record".toList ∉ importedTypes group.2 := by
  intro schema operation document model
  let link : Schema := { Schema.empty with ref := some "#/definitions/Record" }
  let record : Schema := { Schema.empty with tag := some "object" }
  have hlink : link.RefsAlone := .mk (fun _ => ⟨rfl, rfl, rfl, rfl, ⟨rfl, rfl⟩, ⟨rfl, rfl⟩⟩) (List.forall_mem_nil _)
  have hrecord : record.RefsAlone := .of_ref_eq_none rfl (List.forall_mem_nil _)
  have hclosed : HasClosedReferences {} document := by
    have hdefinitions : documentDefinitions document = [("Record".toList, record)] := rfl
    have hschemas : operationSchemas {} document = [link] := rfl
    apply HasClosedReferences.of_schemas
    · rw [hdefinitions, hschemas]
      exact List.forall_mem_cons.2 ⟨⟨hlink, by decide⟩, List.forall_mem_singleton.2 ⟨hrecord, by decide⟩⟩
    · rw [hdefinitions]
      decide
  obtain ⟨o, hops, htype⟩ : ∃ o, model.operations = [("default".toList, [o])] ∧ o.responseType = some "Record".toList :=
    ⟨_, rfl, rfl⟩
  refine ⟨hclosed, _, hops ▸ List.mem_singleton_self _, o, List.mem_singleton_self o, htype, by decide, fun h => ?_⟩
  exact not_mem_builtinTypes_of_imported h (by decide)

end ClientGen
