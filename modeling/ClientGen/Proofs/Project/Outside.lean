import ClientGen.Proofs.Project.Again
/-!
# What is written by hand

An update exchanges the region of a functions file for a new one. What stands around the markers is read and written
with it, so it stays exactly if it has no carriage returns.
-/

namespace ClientGen

open Text ClientGen.Task FileTree

variable {s : Settings} {output directory : Path} {m m' : Machine}

/-! ## Texts around the markers -/

theorem regenerate_outside {t g : Text} {f r : MarkedFile} (ht : MarkedFile.ofText? t = some f)
    (hg : MarkedFile.ofText? g = some r) :
    MarkedFile.ofText? (regenerate (some t) g) = some { f.unified with region := r.region } :=
  ofText?_mergeFunctionsFile (MarkedFile.ofText?_unifyLineEnds ht) hg

theorem regenerateAll_outside {t : Text} {f : MarkedFile} (ht : MarkedFile.ofText? t = some f) {gs : List Text}
    (hne : gs ≠ []) (hgs : ∀ g ∈ gs, ∃ r, MarkedFile.ofText? g = some r) :
    ∃ t' region, regenerateAll (some t) gs = some t' ∧ MarkedFile.ofText? t' = some { f.unified with region } := by
  obtain ⟨g, gs, rfl⟩ := List.exists_cons_of_ne_nil hne
  obtain ⟨r, hg⟩ := hgs g List.mem_cons_self
  -- behind the first text no carriage return is left outside
  obtain ⟨t', region, hall, ht'⟩ := regenerateAll_of_usable (regenerate_outside ht hg)
    (notMem_unifyLineEnds f.before) (notMem_unifyLineEnds f.after) fun g hg => hgs g (List.mem_cons_of_mem _ hg)
  exact ⟨t', region, hall, ht'⟩

/-! ## Functions files -/

section Update

variable {initOnly : Bool} {result : UpdateResult} {model : ApiModel} {m₁ : Machine} {q : Place} {t : Text}

theorem update_keeps_entries
    (hu : (update s directory { initOnly } : Task (StateM Machine) UpdateResult).Ends m result m') :
    m.files.Kept m'.files ∧ m'.files.here = m.files.here := by
  obtain ⟨document, m₂, given, m₃, m₄, rs, hdocument, hgiven, hsaved, hgroups, -⟩ := ends_update_iff.1 hu
  obtain ⟨rfl, -⟩ := ends_loadDescription_again hdocument
  obtain ⟨hfiles, -, -⟩ := ends_loadAliases_keeps hgiven
  obtain ⟨ws, hws, -, -⟩ := ends_generateGroups hgroups
  have hgrows := ((ends_saveAliases hsaved).1.append hws).files_written.grows
  rw [hfiles] at hgrows
  exact ⟨hgrows.kept, hgrows.here_eq⟩

/-- A group writes its functions to a place. -/
def IsWrittenAt (s : Settings) (directory : Path) (groups : List (Text × List Operation)) (t : FileTree) (q : Place) :
    Prop :=
  ∃ g ∈ groups, t.LeadsAt (functionsPath (directory / Path.ofText s.output) g.1) q

theorem textAt?_update
    (hu : (update s directory { initOnly } : Task (StateM Machine) UpdateResult).Ends m result m')
    (hm : (loadModel s directory).Ends m model m₁) (ht : m.files.textAt? q = some t)
    (halias : ∀ a ∈ aliasPaths s (directory / Path.ofText s.output), ¬m'.files.LeadsAt a q)
    (htypes : ∀ g ∈ generatedGroups initOnly model,
      ¬m'.files.LeadsAt (typesPath (directory / Path.ofText s.output) g.1) q) :
    m'.files.textAt? q = regenerateAll (some t) (functionsAt s (directory / Path.ofText s.output) m'.files q
      (generatedGroups initOnly model)) := by
  obtain ⟨document, m₂, given, m₃, m₄, rs, hdocument, hgiven, hsaved, hgroups, rfl⟩ := ends_update_iff.1 hu
  obtain rfl : model = plannedModel s given document := by
    have hload : (loadModel s directory).Ends m (plannedModel s given document) m₃ :=
      ends_bind.2 ⟨document, m₂, hdocument, ends_bind.2 ⟨given, m₃, hgiven, ends_pure.2 ⟨rfl, rfl⟩⟩⟩
    exact (hm.unique hload).1
  obtain ⟨rfl, -⟩ := ends_loadDescription_again hdocument
  obtain ⟨hfiles, -, hsource⟩ := ends_loadAliases_keeps hgiven
  obtain ⟨ws, hws, -, -⟩ := ends_generateGroups hgroups
  have hsame : m₄.files.textAt? q = some t := by
    have hgrows := (ends_saveAliases hsaved).1.files_written.grows
    rw [textAt?_eq_some_iff] at ht ⊢
    rcases hgrows.same q _ (hfiles ▸ ht) with hsame | ⟨path, hpath, hl⟩
    · exact hsame
    · exact absurd (hws.files_written.grows.leadsAt hl) (halias path ((aliasWrites_sublist hsource _).subset hpath))
  rw [textAt?_generateGroups hgroups (.refl m'.files) rfl q, hsame, foldl_groupText_functions htypes]

/-- A functions file to which a group is written keeps what stands around its markers as it is read. -/
theorem find_update_written {group : Text} {f : MarkedFile}
    (hu : (update s directory { initOnly } : Task (StateM Machine) UpdateResult).Ends m result m')
    (hm : (loadModel s directory).Ends m model m₁) (hc : HasNoMarker s.requestClient) (hi : HasNoMarker s.requestImport)
    (ht : m.files.find true (functionsPath (directory / Path.ofText s.output) group) = .ok (q, some (.file (.text t))))
    (hf : MarkedFile.ofText? t = some f)
    (halias : ∀ a ∈ aliasPaths s (directory / Path.ofText s.output), ¬m'.files.LeadsAt a q)
    (htypes : ∀ g ∈ generatedGroups initOnly model,
      ¬m'.files.LeadsAt (typesPath (directory / Path.ofText s.output) g.1) q)
    (hw : IsWrittenAt s directory (generatedGroups initOnly model) m'.files q) :
    ∃ t' region,
      m'.files.find true (functionsPath (directory / Path.ofText s.output) group) = .ok (q, some (.file (.text t'))) ∧
      MarkedFile.ofText? t' = some { f.unified with region } := by
  have hfile : m.files.FileAt (functionsPath (directory / Path.ofText s.output) group) q := ⟨_, ht⟩
  obtain ⟨hkept, hhere⟩ := update_keeps_entries hu
  have htext := textAt?_update hu hm (textAt?_of_find ht) halias htypes
  have hne : functionsAt s (directory / Path.ofText s.output) m'.files q (generatedGroups initOnly model) ≠ [] := by
    obtain ⟨g, hg, hl⟩ := hw
    exact List.ne_nil_of_mem (List.mem_map.2 ⟨g, List.mem_filter.2 ⟨hg, by simpa using hl⟩, rfl⟩)
  have husable : ∀ g ∈ functionsAt s (directory / Path.ofText s.output) m'.files q (generatedGroups initOnly model),
      ∃ r, MarkedFile.ofText? g = some r := by
    intro g hg
    obtain ⟨k, -, rfl⟩ := List.mem_map.1 hg
    exact (exists_parts_renderFunctionsFile hc hi k.2).imp fun _ h => h.1
  obtain ⟨t', region, hall, hparts⟩ := regenerateAll_outside hf hne husable
  exact ⟨t', region, (hfile.kept hkept hhere).find_text (htext.trans hall), hparts⟩

/-- An update keeps the markers of a functions file. What stands around them is kept as it is read, and if a group is
written to the file, it is the same as before exactly if it has no carriage returns. -/
theorem update_outside_markers {group : Text} {f : MarkedFile}
    (hu : (update s directory { initOnly } : Task (StateM Machine) UpdateResult).Ends m result m')
    (hm : (loadModel s directory).Ends m model m₁) (hc : HasNoMarker s.requestClient) (hi : HasNoMarker s.requestImport)
    (ht : m.files.find true (functionsPath (directory / Path.ofText s.output) group) = .ok (q, some (.file (.text t))))
    (hf : MarkedFile.ofText? t = some f)
    (halias : ∀ a ∈ aliasPaths s (directory / Path.ofText s.output), ¬m'.files.LeadsAt a q)
    (htypes : ∀ g ∈ generatedGroups initOnly model,
      ¬m'.files.LeadsAt (typesPath (directory / Path.ofText s.output) g.1) q) :
    ∃ t' f',
      m'.files.find true (functionsPath (directory / Path.ofText s.output) group) = .ok (q, some (.file (.text t'))) ∧
      MarkedFile.ofText? t' = some f' ∧
      (¬IsWrittenAt s directory (generatedGroups initOnly model) m'.files q → t' = t) ∧
      (IsWrittenAt s directory (generatedGroups initOnly model) m'.files q →
        (f'.before = unifyLineEnds f.before ∧ f'.after = unifyLineEnds f.after) ∧
        (f'.before = f.before ↔ '\r' ∉ f.before) ∧ (f'.after = f.after ↔ '\r' ∉ f.after)) := by
  by_cases hw : IsWrittenAt s directory (generatedGroups initOnly model) m'.files q
  · obtain ⟨t', region, hfind, hparts⟩ := find_update_written hu hm hc hi ht hf halias htypes hw
    exact ⟨t', _, hfind, hparts, fun hnot => absurd hw hnot,
      fun _ => ⟨⟨rfl, rfl⟩, unifyLineEnds_eq_self_iff, unifyLineEnds_eq_self_iff⟩⟩
  · have hfile : m.files.FileAt (functionsPath (directory / Path.ofText s.output) group) q := ⟨_, ht⟩
    obtain ⟨hkept, hhere⟩ := update_keeps_entries hu
    have htext := textAt?_update hu hm (textAt?_of_find ht) halias htypes
    have hnone : functionsAt s (directory / Path.ofText s.output) m'.files q (generatedGroups initOnly model) = [] :=
      List.map_eq_nil_iff.2 (List.filter_eq_nil_iff.2 fun g hg hl => hw ⟨g, hg, by simpa using hl⟩)
    rw [hnone] at htext
    exact ⟨t, f, (hfile.kept hkept hhere).find_text htext, hf, fun _ => rfl, fun h => absurd h hw⟩

end Update

theorem apart_of_noLinks {t : FileTree} {q : Place} {group : Text} (hl : t.HasNoLinks)
    (hq : t.LeadsAt (functionsPath output group) q) :
    (∀ a ∈ aliasPaths s output, ¬t.LeadsAt a q) ∧ ∀ g : Text, ¬t.LeadsAt (typesPath output g) q := by
  have hname := hq.getLast?_child hl isFileName_functionsFileName
  refine ⟨fun a ha hap => ?_, fun g hg => ?_⟩
  · unfold aliasPaths at ha
    split at ha
    · obtain rfl := List.mem_singleton.1 ha
      exact absurd (hname.symm.trans (hap.getLast?_child hl isFileName_aliasFileName)) (by decide)
    · cases ha
  · exact absurd (hname.symm.trans (hg.getLast?_child hl isFileName_typesFileName)) (by decide)

/-! ### A project with markers -/

/-- The project with a functions file of given text, and all that an update makes beside it. -/
private def marked (functions : Text) : Machine where
  files := petsTree
    [(["src", "api", "pets"], .directory),
      (["src", "api", "pets", "index.ts"], .file (.text functions)),
      (["src", "api", "tag-mapping.json"], .file (.text petsAliasText)),
      (["src", "api", "pets", "types.ts"], .file (.text []))]

private def markedAliases : Aliases := { mapping := [("pets", "pets")], source := .file }

set_option maxRecDepth 4000 in
private theorem loadAliases_marked (functions : Text) :
    (loadAliases petsOutput [] : Task (StateM Machine) Aliases).Ends (marked functions) markedAliases
      (marked functions) := by
  unfold Ends
  cbv

private theorem loadModel_marked (functions : Text) :
    (loadModel {} petsDirectory).Ends (marked functions) (plannedModel {} markedAliases petsDocument)
      (marked functions) :=
  ends_bind.2 ⟨_, _, loadDescription_pets rfl, ends_bind.2 ⟨_, _, loadAliases_marked functions, ends_pure.2 ⟨rfl, rfl⟩⟩⟩

private theorem markedModel_operations :
    (plannedModel {} markedAliases petsDocument).operations = [("pets".toList, [petsOperation "pets"])] := by cbv

private theorem markedModel_allTypes : (plannedModel {} markedAliases petsDocument).allTypes = [] := by cbv

private def markedPlace : Place := ["src", "api", "pets", "index.ts"]

private theorem find_marked (functions : Text) :
    (marked functions).files.find true (functionsPath petsOutput "pets") =
      .ok (markedPlace, some (.file (.text functions))) := by
  cbv

private theorem hasNoLinks_marked {functions : Text} : (marked functions).files.HasNoLinks :=
  .of_entries (by simp [marked, petsTree])

private theorem isGenerated_marked {t : Text} {f : MarkedFile} (ht : MarkedFile.ofText? t = some f) :
    IsGenerated petsOutput [("pets", [petsOperation "pets"])] (marked t).files where
  types_text g hg := by
    have hfind : (marked t).files.find true (typesPath petsOutput "pets") =
        .ok (["src".toList, "api".toList, "pets".toList, typesFileName], some (.file (.text []))) := by
      cbv
    rw [List.mem_singleton.1 hg]
    exact ⟨_, _, hfind⟩
  functions_usable g hg := by
    rw [List.mem_singleton.1 hg]
    exact ⟨_, t, find_marked t, by rw [ht]; rfl⟩
  apart g _ p hp k _ hk := (apart_of_noLinks (s := {}) hasNoLinks_marked hk).2 g.1 hp

private theorem update_marked {t : Text} {f : MarkedFile} (ht : MarkedFile.ofText? t = some f) :
    ∃ result m', (update {} petsDirectory {} : Task (StateM Machine) UpdateResult).Ends (marked t) result m' ∧
      IsWrittenAt {} petsDirectory (generatedGroups false (plannedModel {} markedAliases petsDocument)) m'.files
        markedPlace ∧
      (∀ a ∈ aliasPaths {} petsOutput, ¬m'.files.LeadsAt a markedPlace) ∧
      ∀ g : Text, ¬m'.files.LeadsAt (typesPath petsOutput g) markedPlace := by
  have husable : IsUsable (renderFunctionsFile {} [petsOperation "pets"]) :=
    isUsable_renderFunctionsFile ⟨by decide, .of_notMem (c := ' ') (by decide) (by decide)⟩
      ⟨by decide, .of_notMem (c := ' ') (by decide) (by decide)⟩ _
  obtain ⟨m', hgroup, -⟩ := generateGroup_again [] (isGenerated_marked ht) (List.mem_singleton_self _) husable
  have hsaved : (saveAliases petsOutput (markedAliases.register (allTags petsDocument)) :
      Task (StateM Machine) Unit).Ends (marked t) () (marked t) :=
    ends_saveAliases_nothing (.inr (by cbv))
  obtain ⟨result, hupdate, -⟩ := update_of_group (loadDescription_pets rfl) (loadAliases_marked t) hsaved
    markedModel_operations markedModel_allTypes hgroup
  have hleads : m'.files.LeadsAt (functionsPath petsOutput "pets") markedPlace := by
    obtain ⟨hkept, hhere⟩ := update_keeps_entries hupdate
    exact (FileAt.kept ⟨_, find_marked t⟩ hkept hhere).leadsAt
  refine ⟨result, m', hupdate, ⟨("pets".toList, [petsOperation "pets"]), ?_, hleads⟩,
    apart_of_noLinks (update_hasNoLinks hasNoLinks_marked hupdate) hleads⟩
  rw [generatedGroups, markedModel_operations]
  exact List.mem_singleton_self _

private theorem unmarked_default :
    HasNoMarker ({} : Settings).requestClient ∧ HasNoMarker ({} : Settings).requestImport :=
  ⟨.of_notMem (c := ' ') (by decide) (by decide), .of_notMem (c := ' ') (by decide) (by decide)⟩

/-- A functions file around whose markers something was written by hand, on lines with a given end. -/
private def handWritten (lineEnd : Text) : Text :=
  "// mine" ++ lineEnd ++ startMarker ++ lineEnd ++ endMarker ++ lineEnd ++ "export const mine = 1" ++ lineEnd

theorem update_outside_markers_of_pets :
    ∃ result m' t' f', (update {} petsDirectory {} : Task (StateM Machine) UpdateResult).Ends
        (marked (handWritten "\n")) result m' ∧
      m'.files.find true (functionsPath petsOutput "pets") = .ok (markedPlace, some (.file (.text t'))) ∧
      MarkedFile.ofText? t' = some f' ∧ f'.before = "// mine\n" ∧ f'.after = "\nexport const mine = 1\n" := by
  have hf : MarkedFile.ofText? (handWritten "\n") = some ⟨"// mine\n", "\n", "\nexport const mine = 1\n"⟩ := by decide
  obtain ⟨result, m', hupdate, hwritten, halias, htypes⟩ := update_marked hf
  obtain ⟨t', f', hfind, hparts, -, hkept⟩ := update_outside_markers hupdate (loadModel_marked _) unmarked_default.1
    unmarked_default.2 (find_marked _) hf halias fun g _ => htypes g.1
  obtain ⟨-, hbefore, hafter⟩ := hkept hwritten
  exact ⟨result, m', t', f', hupdate, hfind, hparts, hbefore.2 (by decide), hafter.2 (by decide)⟩

/-- The carriage returns of what was written by hand are gone after an update. -/
theorem update_unifies_outside :
    ∃ result m' t' f f', (update {} petsDirectory {} : Task (StateM Machine) UpdateResult).Ends
        (marked (handWritten "\r\n")) result m' ∧
      m'.files.find true (functionsPath petsOutput "pets") = .ok (markedPlace, some (.file (.text t'))) ∧
      MarkedFile.ofText? (handWritten "\r\n") = some f ∧ MarkedFile.ofText? t' = some f' ∧
      f.before = "// mine\r\n" ∧ f'.before = "// mine\n" ∧
      f.after = "\r\nexport const mine = 1\r\n" ∧ f'.after = "\nexport const mine = 1\n" := by
  have hf : MarkedFile.ofText? (handWritten "\r\n") =
      some ⟨"// mine\r\n", "\r\n", "\r\nexport const mine = 1\r\n"⟩ := by decide
  obtain ⟨result, m', hupdate, hwritten, halias, htypes⟩ := update_marked hf
  obtain ⟨t', region, hfind, hparts⟩ := find_update_written hupdate (loadModel_marked _) unmarked_default.1
    unmarked_default.2 (find_marked _) hf halias (fun g _ => htypes g.1) hwritten
  have hbefore : unifyLineEnds "// mine\r\n" = "// mine\n" := by cbv
  have hafter : unifyLineEnds "\r\nexport const mine = 1\r\n" = "\nexport const mine = 1\n" := by cbv
  exact ⟨result, m', t', _, _, hupdate, hfind, hf, hparts, rfl, hbefore, rfl, hafter⟩

end ClientGen
