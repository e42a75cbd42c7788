import ClientGen.Proofs.Project.AliasKeeping
/-!
# The history of aliases

Over any number of updates the table of the file of aliases keeps its entries and grows by the categories that are new,
in the order in which the documents bring them.
-/

namespace ClientGen

open Text ClientGen.Task FileTree

variable {output : Path} {allowed : Settings → Prop} {documents : List Fields} {m m' : Machine} {table : Table Text}
  {known tags : List Text} {tag : Text}

/-! ## Categories that are new -/

/-- The categories that documents add to those that are known, one document after the other. -/
def addedTags (known : List Text) : List Fields → List Text
  | [] => []
  | document :: documents =>
    let added := newTags known (allTags document)
    added ++ addedTags (known ++ added) documents

theorem mem_newTags_iff : tag ∈ newTags known tags ↔ tag ∈ tags ∧ tag ∉ known := by
  simp [newTags]

/-- Behind what a document added, a category is new if it was new before and the document does not have it. -/
private theorem notMem_known_iff {document : Fields} :
    tag ∉ known ++ newTags known (allTags document) ↔ tag ∉ known ∧ ¬IsFirstTag document tag := by
  rw [List.mem_append, mem_newTags_iff, mem_allTags_iff]
  by_cases hknown : tag ∈ known
  · simp [hknown]
  · simp [hknown]

theorem mem_addedTags_iff :
    tag ∈ addedTags known documents ↔ tag ∉ known ∧ ∃ document ∈ documents, IsFirstTag document tag := by
  induction documents generalizing known with
  | nil => simp [addedTags]
  | cons document documents ih =>
    rw [addedTags, List.mem_append, ih, mem_newTags_iff, mem_allTags_iff, notMem_known_iff, List.exists_mem_cons_iff]
    by_cases hfirst : IsFirstTag document tag
    · simp [hfirst]
    · simp [hfirst]

theorem nodup_addedTags (known : List Text) (documents : List Fields) : (addedTags known documents).Nodup := by
  induction documents generalizing known with
  | nil => exact List.nodup_nil
  | cons document documents ih =>
    rw [addedTags]
    refine List.nodup_append.2 ⟨(nodup_allTags document).filter _, ih _, fun tag htag other hother => ?_⟩
    -- What is added later is none of what is known by then.
    have hnew := (mem_addedTags_iff.1 hother).1
    rintro rfl
    exact hnew (List.mem_append_right _ htag)

theorem newTags_sorted (known : List Text) (document : Fields) :
    (newTags known (allTags document)).Pairwise fun s t => le s t = true ∧ s ≠ t :=
  (allTags_sorted document).filter _

/-! ## Sequences of updates -/

/-- Updates follow one another, with settings that are allowed and one output directory, and load documents. Before each
of them the project may become another one that has the same file of aliases. All of them end and spare that file. -/
inductive Updates (output : Path) (allowed : Settings → Prop) : List Fields → Machine → Machine → Prop
  | done (m : Machine) : Updates output allowed [] m m
  | step {s : Settings} {directory : Path} {options : UpdateOptions} {document : Fields} {documents : List Fields}
      {result : UpdateResult} {m n n' m' : Machine}
      (hsame : aliasContent? output n.files = aliasContent? output m.files)
      (hallowed : allowed s) (houtput : directory / Path.ofText s.output = output)
      (hdocument : (loadDescription directory s.input : Task (StateM Machine) Fields).Ends n document n)
      (hends : (update s directory options : Task (StateM Machine) UpdateResult).Ends n result n')
      (hspares : SparesAliases s directory options n n')
      (hrest : Updates output allowed documents n' m') : Updates output allowed (document :: documents) m m'

theorem HoldsTable.after_updates (h : Updates output (·.tagMapping = []) documents m m')
    (ht : HoldsTable (aliasContent? output m.files) table) :
    HoldsTable (aliasContent? output m'.files) (table ++ identities (addedTags table.keys documents)) := by
  induction h generalizing table with
  | done m => simpa [addedTags, identities] using ht
  | @step s directory options document documents result m n n' m' hsame hnone houtput hdocument hends hspares _ ih =>
    subst houtput
    rw [← hsame] at ht
    have hfirst := ih (ht.updated hnone hdocument hends hspares)
    have hkeys : Table.keys (table ++ identities (newTags table.keys (allTags document))) =
        table.keys ++ newTags table.keys (allTags document) := by
      rw [Table.keys, List.map_append]
      exact congrArg _ (keys_identities _)
    rw [hkeys, List.append_assoc] at hfirst
    rw [addedTags, identities, List.map_append]
    exact hfirst

theorem aliasContent?_after_updates (h : Updates output (·.tagMapping ≠ []) documents m m') {c : Content}
    (hc : aliasContent? output m.files = some c) : aliasContent? output m'.files = some c := by
  induction h with
  | done m => exact hc
  | step hsame hconfigured houtput _ hends hspares _ ih =>
    subst houtput
    rw [← hsame] at hc
    exact ih ((aliasContent?_of_configured hconfigured hends hspares).1 c hc)

/-- Aliases survive updates. If the file of aliases is not there or holds a table, then after updates that take their
aliases from it, it has the entries of the table and behind them one for each category that is new, in the order of the
documents and sorted within one. Updates that take their aliases from the settings leave what it holds, and write no
file to which its path leads in the end. All this is so as long as no generated file is the file of aliases and nothing
on the way to it is removed; without links, and without points in the path of the output, that is always the case. -/
theorem aliases_survive_updates (output : Path) :
    (∀ documents m m' table, HoldsTable (aliasContent? output m.files) table →
      Updates output (·.tagMapping = []) documents m m' →
        HoldsTable (aliasContent? output m'.files) (table ++ identities (addedTags table.keys documents))) ∧
    (∀ known documents, (addedTags known documents).Nodup ∧
      ∀ tag, tag ∈ addedTags known documents ↔ tag ∉ known ∧ ∃ document ∈ documents, IsFirstTag document tag) ∧
    (∀ known document, (newTags known (allTags document)).Pairwise fun s t => le s t = true ∧ s ≠ t) ∧
    (∀ documents m m' c, aliasContent? output m.files = some c → Updates output (·.tagMapping ≠ []) documents m m' →
      aliasContent? output m'.files = some c) ∧
    ∀ s directory options m result m', directory / Path.ofText s.output = output →
      (update s directory options : Task (StateM Machine) UpdateResult).Ends m result m' →
        (s.tagMapping ≠ [] → SparesAliases s directory options m m' → ∀ c, aliasContent? output m'.files = some c →
          ∃ p, m'.files.LeadsAt (output.child aliasFileName) p ∧ m.files.get? p = some (.file c)) ∧
        (m.files.HasNoLinks → m.files.WellNamed → directory.IsProper → (∀ name ∈ output.names, name ≠ ['.', '.']) →
          SparesAliases s directory options m m') := by
  refine ⟨fun documents m m' table ht h => ht.after_updates h, fun known documents => ⟨nodup_addedTags _ _,
    fun tag => mem_addedTags_iff⟩, newTags_sorted, fun documents m m' c hc h => aliasContent?_after_updates h hc, ?_⟩
  rintro s directory options m result m' rfl h
  exact ⟨fun hconfigured hspares => (aliasContent?_of_configured hconfigured h hspares).2,
    fun hl hn hdirectory hplain => .of_noLinks hl hn hdirectory hplain h⟩

/-! ### The project of the pets -/

/-- Settings that have an alias for the category of the pets. -/
private def animalsSettings : Settings := { tagMapping := [("pets", "animals")] }

private theorem petsContent : aliasContent? petsOutput petsUpdated.files = some (.text petsAliasText) :=
  aliasContent?_eq_some_iff.2 ⟨["src".toList, "api".toList, aliasFileName], rfl⟩

private theorem update_pets_again :
    ∃ result, (update {} petsDirectory { initOnly := true } : Task (StateM Machine) UpdateResult).Ends petsUpdated
      result petsUpdated := by
  have hread : (readAliasFile petsOutput : Task (StateM Machine) (Table Text)).Ends petsUpdated petsAliases.mapping
      petsUpdated := by
    obtain ⟨p, hf⟩ := aliasContent?_eq_some_iff.1 petsContent
    exact ends_readAliasFile_written (by decide) hf
  have hnothing : (Aliases.register { mapping := petsAliases.mapping, source := .file }
      (allTags petsDocument)).discovered = [] := by cbv
  exact ⟨_, ends_bind.2 ⟨_, _, loadDescription_pets rfl, ends_bind.2 ⟨_, _, ends_loadAliases_nil.2 ⟨_, hread, rfl⟩,
    ends_bind.2 ⟨_, _, ends_saveAliases_nothing (.inr hnothing), ends_pure.2 ⟨rfl, rfl⟩⟩⟩⟩⟩

private theorem loadDescription_animals {rest : List (Place × Entry)} (h : m.files = petsTree rest) :
    (loadDescription petsDirectory animalsSettings.input : Task (StateM Machine) Fields).Ends m petsDocument m :=
  loadDescription_pets h

private theorem update_pets_configured :
    ∃ result, (update animalsSettings petsDirectory { initOnly := true } : Task (StateM Machine) UpdateResult).Ends
      petsUpdated result petsUpdated := by
  have hgiven : (loadAliases petsOutput animalsSettings.tagMapping : Task (StateM Machine) Aliases).Ends petsUpdated
      { mapping := animalsSettings.tagMapping, source := .config } petsUpdated :=
    (ends_loadAliases_of_ne_nil (List.cons_ne_nil _ _)).2 ⟨rfl, rfl⟩
  exact ⟨_, ends_bind.2 ⟨_, _, loadDescription_animals rfl, ends_bind.2 ⟨_, _, hgiven, ends_bind.2 ⟨_, _,
    ends_saveAliases_nothing (.inl Aliases.source_register), ends_pure.2 ⟨rfl, rfl⟩⟩⟩⟩⟩

private theorem SparesAliases.of_initOnly {s : Settings} {directory : Path} {options : UpdateOptions}
    (h : options.initOnly = true) : SparesAliases s directory options m m' := by
  constructor
  · simp [h]
  · simp [h]

/-- In the project of the pets two updates in a row leave the one alias, and one with other aliases changes nothing. -/
theorem aliases_survive_updates_of_pets :
    HoldsTable (aliasContent? petsOutput pets.files) [] ∧
    Updates petsOutput (·.tagMapping = []) [petsDocument, petsDocument] pets petsUpdated ∧
    HoldsTable (aliasContent? petsOutput petsUpdated.files) [("pets", "pets")] ∧
    Updates petsOutput (·.tagMapping ≠ []) [petsDocument] petsUpdated petsUpdated ∧
    aliasContent? petsOutput petsUpdated.files = some (.text petsAliasText) := by
  obtain ⟨htable, -, -, hcontent, hstep⟩ := aliases_survive_updates petsOutput
  obtain ⟨result, hupdate⟩ := update_pets
  obtain ⟨again, hagain⟩ := update_pets_again
  obtain ⟨configured, hconfigured⟩ := update_pets_configured
  have hlinks : pets.files.HasNoLinks := .of_entries (by simp [pets, petsTree])
  have hnamed : pets.files.WellNamed := ⟨by decide, by decide⟩
  have hdirectory : petsDirectory.IsProper := by
    intro name hname
    cases hname
  have hspares : SparesAliases {} petsDirectory {} pets petsUpdated :=
    (hstep _ _ _ _ _ _ rfl hupdate).2 hlinks hnamed hdirectory (by decide)
  have hnone : aliasContent? petsOutput pets.files = none := by decide +kernel
  have habsent : HoldsTable (aliasContent? petsOutput pets.files) [] := hnone ▸ .absent
  have hupdates : Updates petsOutput (·.tagMapping = []) [petsDocument, petsDocument] pets petsUpdated :=
    .step rfl rfl rfl (loadDescription_pets rfl) hupdate hspares
      (.step rfl rfl rfl (loadDescription_pets rfl) hagain (.of_initOnly rfl) (.done _))
  have hupdates' : Updates petsOutput (·.tagMapping ≠ []) [petsDocument] petsUpdated petsUpdated :=
    .step rfl (List.cons_ne_nil _ _) rfl (loadDescription_animals rfl) hconfigured (.of_initOnly rfl) (.done _)
  have hadded : addedTags [] [petsDocument, petsDocument] = ["pets".toList] := by cbv
  have htwice := htable _ _ _ _ habsent hupdates
  change HoldsTable _ (identities (addedTags [] [petsDocument, petsDocument])) at htwice
  rw [hadded] at htwice
  exact ⟨habsent, hupdates, htwice, hupdates', hcontent _ _ _ _ petsContent hupdates'⟩

/-! ### Projects in which the file of aliases is lost -/

/-- A project in which the file of aliases is a link to another file of the output directory. -/
private def sidelinedTree (rest : List (Place × Entry)) : FileTree :=
  petsTree ((["src", "api", "tag-mapping.json"], .link "names.json") :: rest)

private def sidelinedFile : Place × Entry :=
  (["src", "api", "names.json"], .file (.text "\x7b\"pets\":\"animals\"\x7d"))

private def sidelined : Machine where
  files := sidelinedTree [sidelinedFile]

/-- The project after an update that removed the output first. -/
private def sidelinedUpdated : Machine where
  files := sidelinedTree
    [(["src", "api", "animals"], .directory),
      (["src", "api", "animals", "types.ts"], .file (.text linkedTypes)),
      (["src", "api", "animals", "index.ts"], .file (.text linkedFunctions))]

private def animalsAliases : Aliases := { mapping := [("pets", "animals")], source := .file }

private theorem animalsModel_operations :
    (plannedModel {} animalsAliases petsDocument).operations = [("animals".toList, [petsOperation "animals"])] := by
  cbv

private theorem animalsModel_allTypes : (plannedModel {} animalsAliases petsDocument).allTypes = [] := by cbv

set_option maxRecDepth 4000 in
private theorem update_sidelined :
    ∃ result, (update {} petsDirectory { clean := true } : Task (StateM Machine) UpdateResult).Ends sidelined result
      sidelinedUpdated := by
  have hgiven : (loadAliases petsOutput [] : Task (StateM Machine) Aliases).Ends sidelined animalsAliases
      sidelined := by
    unfold Ends
    cbv
  have hsaved : (saveAliases petsOutput (animalsAliases.register (allTags petsDocument)) :
      Task (StateM Machine) Unit).Ends sidelined () sidelined := ends_saveAliases_nothing (.inr (by cbv))
  have hcleared : (clearOutput petsOutput [aliasFileName] : Task (StateM Machine) Unit).Ends sidelined ()
      { files := sidelinedTree [] } := by
    unfold Ends
    cbv
  have hgroup : (generateGroup {} petsOutput [] ("animals", [petsOperation "animals"]) :
      Task (StateM Machine) GroupResult).Ends { files := sidelinedTree [] } ⟨"animals", .created, 1, 0⟩
        sidelinedUpdated := by
    unfold Ends
    cbv
  have hgroups := ends_generateGroups_of_group animalsModel_operations animalsModel_allTypes hgroup
  exact ⟨_, ends_bind.2 ⟨_, _, loadDescription_pets rfl, ends_bind.2 ⟨_, _, hgiven, ends_bind.2 ⟨_, _, hsaved,
    ends_bind.2 ⟨_, _, hcleared, ends_bind.2 ⟨_, _, hgroups, ends_pure.2 ⟨rfl, rfl⟩⟩⟩⟩⟩⟩⟩

private def configuredAliases : Aliases := { mapping := animalsSettings.tagMapping, source := .config }

private theorem configuredModel_operations :
    (plannedModel animalsSettings configuredAliases petsDocument).operations =
      [("animals".toList, [petsOperation "animals"])] := by
  cbv

private theorem configuredModel_allTypes :
    (plannedModel animalsSettings configuredAliases petsDocument).allTypes = [] := by cbv

set_option maxRecDepth 4000 in
private theorem update_linked_configured :
    ∃ result, (update animalsSettings petsDirectory {} : Task (StateM Machine) UpdateResult).Ends linked result
      linkedUpdated := by
  have hgiven : (loadAliases petsOutput animalsSettings.tagMapping : Task (StateM Machine) Aliases).Ends linked
      configuredAliases linked := (ends_loadAliases_of_ne_nil (List.cons_ne_nil _ _)).2 ⟨rfl, rfl⟩
  have hgroup : (generateGroup animalsSettings petsOutput [] ("animals", [petsOperation "animals"]) :
      Task (StateM Machine) GroupResult).Ends linked ⟨"animals", .created, 1, 0⟩ linkedUpdated := by
    unfold Ends
    cbv
  have hgroups := ends_generateGroups_of_group configuredModel_operations configuredModel_allTypes hgroup
  exact ⟨_, ends_bind.2 ⟨_, _, loadDescription_animals rfl, ends_bind.2 ⟨_, _, hgiven, ends_bind.2 ⟨_, _,
    ends_saveAliases_nothing (.inl Aliases.source_register), ends_bind.2 ⟨_, _, hgroups, ends_pure.2 ⟨rfl, rfl⟩⟩⟩⟩⟩⟩

/-- The one alias of the file is lost where the file is a link to a file that is generated, and where it is one to a file
that is removed. What is generated takes the place of the content even if the aliases are those of the settings. -/
theorem aliases_lost_behind_links :
    (∃ result, (update {} petsDirectory {} : Task (StateM Machine) UpdateResult).Ends linked result linkedUpdated ∧
      HoldsTable (aliasContent? petsOutput linked.files) [("pets", "animals")] ∧
      ¬HoldsTable (aliasContent? petsOutput linkedUpdated.files) [("pets", "animals")]) ∧
    (∃ result, (update {} petsDirectory { clean := true } : Task (StateM Machine) UpdateResult).Ends sidelined result
        sidelinedUpdated ∧
      HoldsTable (aliasContent? petsOutput sidelined.files) [("pets", "animals")] ∧
      ¬HoldsTable (aliasContent? petsOutput sidelinedUpdated.files) [("pets", "animals")]) ∧
    addedTags ["pets"] [petsDocument] = [] ∧
    ∃ result, (update animalsSettings petsDirectory {} : Task (StateM Machine) UpdateResult).Ends linked result
        linkedUpdated ∧
      aliasContent? petsOutput linkedUpdated.files ≠ aliasContent? petsOutput linked.files := by
  have hjson : Json.read (unifyLineEnds "\x7b\"pets\":\"animals\"\x7d") =
      .ok (.object (Json.textFields [("pets", "animals")])) := by cbv
  have hlinked : aliasContent? petsOutput linked.files = some (.text "\x7b\"pets\":\"animals\"\x7d") := by cbv
  have hsidelined : aliasContent? petsOutput sidelined.files = some (.text "\x7b\"pets\":\"animals\"\x7d") := by cbv
  refine ⟨?_, ?_, by cbv, ?_⟩
  · obtain ⟨result, hupdate⟩ := update_linked
    have hread : (readAliasFile petsOutput : Task (StateM Machine) (Table Text)).Ends linkedUpdated [] linkedWarned := by
      unfold Ends
      cbv
    refine ⟨result, hupdate, hlinked ▸ .object hjson, fun h => ?_⟩
    exact List.cons_ne_nil _ _ (h.eq_of_ends hread).symm
  · obtain ⟨result, hupdate⟩ := update_sidelined
    have hgone : aliasContent? petsOutput sidelinedUpdated.files = none := by cbv
    refine ⟨result, hupdate, hsidelined ▸ .object hjson, fun h => ?_⟩
    rw [hgone] at h
    cases h
  · obtain ⟨result, hupdate⟩ := update_linked_configured
    have htypes : aliasContent? petsOutput linkedUpdated.files = some (.text linkedTypes) := by cbv
    rw [htypes, hlinked]
    exact ⟨result, hupdate, by decide +kernel⟩

end ClientGen
