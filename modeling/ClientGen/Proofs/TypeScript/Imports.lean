import ClientGen.Proofs.TypeScript.FunctionsFile
/-!
# Imported types

The types that a functions file imports stand in one line before its region. A merge keeps that line of the
file that was there before, so that the types of the new functions are imported if they were imported before.
-/

namespace ClientGen

open Text

variable {settings : Settings}

theorem elementType_array (t : Text) : elementType (t ++ "[]") = elementType t := by
  simp [elementType, elementType.go]

theorem elementType_of_isIdentifier {n : Text} (h : isIdentifier n = true) : elementType n = n := by
  have hlast : '\x5d' ∉ n.reverse := fun hc =>
    absurd (isIdentChar_of_mem h _ (List.mem_reverse.1 hc)) (by decide)
  unfold elementType elementType.go
  split
  · next hr => exact absurd (hr ▸ List.mem_cons_self) hlast
  · exact List.reverse_reverse n

theorem importOf_array (t : Text) : importOf (t ++ "[]") = importOf t := by
  rw [importOf, importOf, elementType_array]

@[simp] theorem importOf_keyword (k : Keyword) : importOf (TypeExpr.keyword k).render = none := by
  cases k <;> decide

@[simp] theorem importOf_record : importOf (TypeExpr.record .unknown).render = none := by decide

theorem eq_of_importOf_identifier {n m : Text} (h : isIdentifier n = true) (hm : importOf n = some m) :
    n = m := by
  rw [importOf, elementType_of_isIdentifier h] at hm
  split at hm
  · exact Option.some.inj hm
  · cases hm

theorem mem_importedTypes {operations : List Operation} {name : Text} :
    name ∈ importedTypes operations ↔
      ∃ o ∈ operations, ∃ t ∈ o.signatureTypes, importOf t = some name := by
  simp only [importedTypes, sort, List.mem_mergeSort, mem_firstOccurrences, List.mem_filterMap,
    List.mem_flatMap]
  constructor
  · rintro ⟨t, ⟨o, ho, ht⟩, hn⟩
    exact ⟨o, ho, t, ht, hn⟩
  · rintro ⟨o, ho, t, ht, hn⟩
    exact ⟨t, ⟨o, ho, ht⟩, hn⟩

/-! ## Import lines -/

/-- A text with a line that imports all the types, if there are any. -/
def ImportsTypes (t : Text) (types : List Text) : Prop :=
  types = [] ∨ ∃ names, (∀ type ∈ types, type ∈ names) ∧ '\n' :: typeImportLine names ++ ['\n'] <:+: t

/-- A text with a line behind its head. -/
def withLine (head line tail : Text) : Text := head ++ '\n' :: (line ++ '\n' :: tail)

theorem infix_withLine (head line tail : Text) : '\n' :: line ++ ['\n'] <:+: withLine head line tail :=
  ⟨head, tail, by simp [withLine]⟩

def clientImportLine (settings : Settings) : Text :=
  "import \x7b " ++ settings.requestClient ++ " \x7d from '" ++ settings.requestImport ++ "'"

/-- A functions file up to the line that imports the types. -/
def functionsFileHead (settings : Settings) : Text := functionsFileHeader ++ '\n' :: clientImportLine settings

theorem renderFunctionsFile_withLine (settings : Settings) {operations : List Operation}
    (h : importedTypes operations ≠ []) :
    ∃ tail, renderFunctionsFile settings operations =
      withLine (functionsFileHead settings) (typeImportLine (importedTypes operations)) tail := by
  have himports : importLines settings operations "./types" =
      [clientImportLine settings, typeImportLine (importedTypes operations)] := by
    unfold importLines
    dsimp only
    rw [if_neg (by simpa using h)]
    rfl
  refine ⟨'\n' :: (startMarker ++ (functionsFileParts settings operations).region ++ endMarker ++ ['\n']), ?_⟩
  rw [renderFunctionsFile_eq, MarkedFile.toText, functionsFileParts, himports, join_cons_cons, join_singleton]
  simp [withLine, functionsFileHead]

section Markers

variable {m head line tail u r : Text}

private theorem cut?_withLine (hm : m ∈ markers) (hl : HasNoMarker line)
    (h : cut? m (withLine head line tail) = some (u, r)) :
    (∃ r', cut? m head = some (u, r') ∧ r = withLine r' line tail) ∨
      cut? m head = none ∧ ∃ u', u = withLine head line u' := by
  have hne : ∀ m ∈ markers, m ≠ [] ∧ '\n' ∉ m := by decide
  obtain ⟨hp, hc⟩ := hne m hm
  unfold withLine at h
  cases hhead : cut? m head with
  | some e =>
    obtain ⟨u', r'⟩ := e
    rw [cut?_append_cons_of_some hp hhead] at h
    cases h
    exact .inl ⟨r', rfl, rfl⟩
  | none =>
    rw [cut?_append_cons_of_none hp hc hhead, cut?_append_cons_of_none hp hc (cut?_eq_none_iff.2 (hl m hm)),
      Option.map_map] at h
    obtain ⟨⟨u', r'⟩, -, heq⟩ := Option.map_eq_some_iff.1 h
    cases heq
    exact .inr ⟨rfl, u', rfl⟩

/-- The end marker behind the line leaves the line in the region when the start marker is in the head. -/
private theorem region_withLine {f : MarkedFile} (hl : HasNoMarker line)
    (hf : MarkedFile.ofText? (withLine head line tail) = some f)
    (hs : cut? startMarker head = some (f.before, r)) (he : cut? endMarker head = none) : ∃ u, f.region = withLine r line u := by
  rcases cut?_withLine (by decide) hl (MarkedFile.cut?_endMarker_of_usable hf) with ⟨e, he', -⟩ | ⟨-, u, hu⟩
  · simp [he] at he'
  · refine ⟨u, ?_⟩
    rw [cut?_eq_some hs] at hu
    exact List.append_cancel_left (hu.trans (by simp [withLine]))

private theorem infix_merged {line' tail' : Text} {f g : MarkedFile}
    (hl : HasNoMarker line) (hl' : HasNoMarker line')
    (hf : MarkedFile.ofText? (withLine head line tail) = some f)
    (hg : MarkedFile.ofText? (withLine head line' tail') = some g) :
    let merged := ({ f with region := g.region } : MarkedFile).toText
    '\n' :: line ++ ['\n'] <:+: merged ∨ '\n' :: line' ++ ['\n'] <:+: merged := by
  intro merged
  have hbefore : f.before <:+: merged := by
    refine List.IsPrefix.isInfix ?_
    simp only [merged, MarkedFile.toText, List.append_assoc]
    exact List.prefix_append _ _
  have hregion : g.region <:+: merged := by
    refine ⟨f.before ++ startMarker, endMarker ++ f.after, ?_⟩
    simp [merged, MarkedFile.toText]
  have hafter : f.after <:+: merged := (List.suffix_append _ f.after).isInfix
  -- the markers of both files stand in the same places of the head, or behind the line
  have hstart := cut?_withLine (by decide) hl (MarkedFile.cut?_startMarker_of_usable hf)
  have hstart' := cut?_withLine (by decide) hl' (MarkedFile.cut?_startMarker_of_usable hg)
  have hend := cut?_withLine (by decide) hl (MarkedFile.cut?_endMarker_of_usable hf)
  rcases hstart with ⟨r, hr, -⟩ | ⟨-, u, hu⟩
  · rcases hstart' with ⟨r', hr', -⟩ | ⟨hnone, -⟩
    · rcases hend with ⟨e, -, he⟩ | ⟨hnone, -⟩
      · exact .inl ((infix_withLine e line tail).trans (he ▸ hafter))
      · obtain ⟨u, hu⟩ := region_withLine hl' hg hr' hnone
        exact .inr ((infix_withLine r' line' u).trans (hu ▸ hregion))
    · simp [hnone] at hr
  · exact .inl ((infix_withLine head line u).trans (hu ▸ hbefore))

end Markers

theorem ImportsTypes.mono {t : Text} {types types' : List Text} (h : ImportsTypes t types)
    (hsub : types' ⊆ types) : ImportsTypes t types' := by
  rcases h with rfl | ⟨names, hall, hline⟩
  · exact .inl (List.subset_nil.1 hsub)
  · exact .inr ⟨names, fun type ht => hall type (hsub ht), hline⟩

theorem renderFunctionsFile_importsTypes (settings : Settings) (operations : List Operation) :
    ImportsTypes (renderFunctionsFile settings operations) (importedTypes operations) := by
  by_cases h : importedTypes operations = []
  · exact .inl h
  · obtain ⟨tail, htail⟩ := renderFunctionsFile_withLine settings h
    exact .inr ⟨_, fun _ hn => hn, htail ▸ infix_withLine _ _ tail⟩

private theorem merged_importsTypes {before after : List Operation} {f g : MarkedFile}
    (hf : MarkedFile.ofText? (renderFunctionsFile settings before) = some f)
    (hg : MarkedFile.ofText? (renderFunctionsFile settings after) = some g) :
    ImportsTypes ({ f with region := g.region } : MarkedFile).toText
      ((importedTypes after).filter (· ∈ importedTypes before)) := by
  have hboth {type : Text} (h : type ∈ (importedTypes after).filter (· ∈ importedTypes before)) :
      type ∈ importedTypes after ∧ type ∈ importedTypes before := by simpa using h
  by_cases hnone : (importedTypes after).filter (· ∈ importedTypes before) = []
  · exact .inl hnone
  -- with a type in common, both files have a line of types behind the same head
  obtain ⟨type, htype⟩ := List.exists_mem_of_ne_nil _ hnone
  obtain ⟨hafter, hbefore⟩ := hboth htype
  obtain ⟨tail, ht⟩ := renderFunctionsFile_withLine settings (List.ne_nil_of_mem hbefore)
  obtain ⟨tail', ht'⟩ := renderFunctionsFile_withLine settings (List.ne_nil_of_mem hafter)
  rw [ht] at hf
  rw [ht'] at hg
  rcases infix_merged typeImportLine_unmarked typeImportLine_unmarked hf hg with hline | hline
  · exact .inr ⟨_, fun _ h => (hboth h).2, hline⟩
  · exact .inr ⟨_, fun _ h => (hboth h).1, hline⟩

/-- A merge of two functions files has the functions of the second one. It imports those of their types that the
first file imports, and all of them if it does not keep the text around the region. -/
theorem merged_file_imports (settings : Settings) (before after : List Operation) :
    let merge :=
      mergeFunctionsFile (some (renderFunctionsFile settings before)) (renderFunctionsFile settings after)
    (MarkedFile.ofText? merge.content).map MarkedFile.region =
        (MarkedFile.ofText? (renderFunctionsFile settings after)).map MarkedFile.region ∧
      ImportsTypes merge.content ((importedTypes after).filter (· ∈ importedTypes before)) ∧
      (merge.action ≠ .merged → ImportsTypes merge.content (importedTypes after)) := by
  intro merge
  by_cases hfiles : MarkedFile.ofText? (renderFunctionsFile settings before) = none ∨
      MarkedFile.ofText? (renderFunctionsFile settings after) = none
  · have hmerge : merge = ⟨renderFunctionsFile settings after, .replaced⟩ :=
      mergeFunctionsFile_of_unusable hfiles
    rw [hmerge]
    have himports := renderFunctionsFile_importsTypes settings after
    exact ⟨rfl, himports.mono List.filter_sublist.subset, fun _ => himports⟩
  · rw [not_or] at hfiles
    obtain ⟨f, hf⟩ := Option.ne_none_iff_exists'.1 hfiles.1
    obtain ⟨g, hg⟩ := Option.ne_none_iff_exists'.1 hfiles.2
    have hmerge : merge = ⟨({ f with region := g.region } : MarkedFile).toText, .merged⟩ :=
      mergeFunctionsFile_of_usable hf hg
    refine ⟨?_, ?_, ?_⟩
    · rw [ofText?_mergeFunctionsFile hf hg, hg]
      rfl
    · rw [hmerge]
      exact merged_importsTypes hf hg
    · intro h
      exact absurd (by rw [hmerge]) h

/-- The type of the new function was imported for one that is there no more. -/
theorem merged_file_imports_user :
    let before : List Operation := [{ responseType := some "User" }]
    let after : List Operation := [{ callName := "list", responseType := some "User[]" }]
    let merge := mergeFunctionsFile (some (renderFunctionsFile {} before)) (renderFunctionsFile {} after)
    merge.action = .merged ∧ importedTypes after ≠ [] ∧ ImportsTypes merge.content (importedTypes after) := by
  intro before after merge
  have huser : "User".toList ∈ importedTypes before :=
    mem_importedTypes.2 ⟨_, List.mem_cons_self, "User", by decide, by decide⟩
  have hafter : importedTypes after = ["User".toList] := by decide +kernel
  have hkept : (importedTypes after).filter (· ∈ importedTypes before) = importedTypes after := by
    rw [hafter]
    exact List.filter_eq_self.2 fun type ht => by simpa [List.mem_singleton.1 ht] using huser
  have haction : merge.action = .merged := by decide +kernel
  exact ⟨haction, by simp [hafter], hkept ▸ (merged_file_imports {} before after).2.1⟩

private theorem importWord_occurs (names : List Text) :
    "import type".toList <:+: '\n' :: typeImportLine names ++ ['\n'] := by
  have hword : "import type".toList <+: "import type \x7b ".toList := by decide
  have hline : "import type \x7b ".toList <+: typeImportLine names := by
    unfold typeImportLine
    simp only [List.append_assoc]
    exact List.prefix_append _ _
  exact (hword.trans hline).isInfix.trans ⟨['\n'], ['\n'], rfl⟩

/-- A type that comes with the second file alone is not imported. -/
theorem merged_file_misses_import :
    let before : List Operation := [{}]
    let after : List Operation := [{ responseType := some "User" }]
    let merge := mergeFunctionsFile (some (renderFunctionsFile {} before)) (renderFunctionsFile {} after)
    merge.action = .merged ∧ "User".toList ∈ importedTypes after ∧
      ¬ImportsTypes merge.content (importedTypes after) := by
  intro before after merge
  have huser : "User".toList ∈ importedTypes after :=
    mem_importedTypes.2 ⟨_, List.mem_singleton_self _, "User", by decide, by decide⟩
  have hmerge : merge.action = .merged ∧ cut? "import type" merge.content = none := by decide +kernel
  refine ⟨hmerge.1, huser, fun h => ?_⟩
  clear_value merge
  rcases h with hnone | ⟨names, -, hline⟩
  · rw [hnone] at huser
    cases huser
  · exact cut?_eq_none_iff.1 hmerge.2 ((importWord_occurs names).trans hline)

end ClientGen
