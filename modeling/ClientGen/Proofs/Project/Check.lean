import ClientGen.Project.Check
import ClientGen.Proofs.Api.Model
import ClientGen.Proofs.Change.Operations
import ClientGen.Proofs.Change.Types
import ClientGen.Proofs.Files.Places
import ClientGen.Proofs.Project.Update
import ClientGen.Proofs.TypeScript.Returns
import Mathlib
/-!
# A check after an update

A check that follows an update finds no changes, as long as the files that are used are different files.
-/

namespace ClientGen

open Text ClientGen.Task FileTree

variable {s : Settings} {output directory path : Path} {m m' : Machine}

/-! ## Files read back -/

theorem ends_readOutput?_of_find {p : Place} {t : Text}
    (h : m.files.find true path = .ok (p, some (.file (.text t)))) :
    (readOutput? path : Task (StateM Machine) (Option Text)).Ends m (some (unifyLineEnds t)) m :=
  ends_readOutput?.2 ⟨.inr ⟨t, isFile_eq_true_iff.2 ⟨p, _, h⟩, read_eq_ok_iff.2 ⟨p, h⟩, rfl⟩, rfl⟩

theorem ends_loadDescription_of_find {location t : Text} {document : Fields} {p : Place}
    (hl : isRemote location = false)
    (hf : m.files.find true (directory / Path.ofText location) = .ok (p, some (.file (.text t)))) (ht : '\r' ∉ t)
    (hd : parseDescription (directory / Path.ofText location).toText t = .ok document) :
    (loadDescription directory location : Task (StateM Machine) Fields).Ends m document m :=
  (ends_loadDescription_of_local hl).2 ⟨p, t, hf, by rwa [unifyLineEnds_of_notMem ht], rfl⟩

/-- What is compared of a functions file that was merged into whatever was there. -/
theorem exportedFunctions_again {operations : List Operation} (hl : ∀ o ∈ operations, o.IsLegible)
    (hp : ∀ o ∈ operations, '\r' ∉ o.cleanPath) (hu : ∀ o ∈ operations, o.IsUnmarked)
    (hc : IsDotted s.requestClient) (hi : HasNoMarker s.requestImport) (existing : Option Text) :
    Source.exportedFunctions (comparedPart
        (unifyLineEnds (mergeFunctionsFile existing (renderFunctionsFile s operations)).content)) =
      Table.ofEntries (operations.map fun o => (o.callName, o.functionCode s)) := by
  obtain ⟨f, hf, hregion⟩ :=
    ofText?_content_mergeFunctionsFile (ofText?_renderFunctionsFile hl hu hc hi) existing
  have hreturn : '\r' ∉ f.region := by
    have hfunctions := notMem_functionsText  hl hp hc
    rw [hregion]
    change '\r' ∉ '\n' :: '\n' :: functionsText s operations
    simpa using hfunctions
  have hcompared : comparedPart
      (unifyLineEnds (mergeFunctionsFile existing (renderFunctionsFile s operations)).content) =
        '\n' :: '\n' :: functionsText s operations := by
    simp only [comparedPart, MarkedFile.ofText?_unifyLineEnds hf]
    exact (unifyLineEnds_of_notMem hreturn).trans hregion
  rw [hcompared]
  exact exportedFunctions_functionsText hl hc

theorem detectOperationChanges_again {operations : List Operation} (hl : ∀ o ∈ operations, o.IsLegible)
    (hp : ∀ o ∈ operations, '\r' ∉ o.cleanPath) (hu : ∀ o ∈ operations, o.IsUnmarked)
    (hc : IsDotted s.requestClient) (hi : HasNoMarker s.requestImport) (existing : Option Text) :
    detectOperationChanges operations
      (some (unifyLineEnds (mergeFunctionsFile existing (renderFunctionsFile s operations)).content)) = [] :=
  detectOperationChanges_self (exportedFunctions_again hl hp hu hc hi existing)

/-- What is asked of the operations of a group and of the types that they use. -/
structure IsPlainGroup (s : Settings) (types : List NamedType) (operations : List Operation) : Prop where
  plain : ∀ o ∈ operations, o.IsPlain
  unmarked : ∀ o ∈ operations, o.IsUnmarked
  words : ∀ d ∈ typesFileDeclarations s (groupTypes operations types) operations, ∀ w ∈ d.words, '\r' ∉ w

theorem ends_checkGroup_again {types : List NamedType} {g : Text × List Operation} {existing : Option Text}
    {p q : Place} (hb : ∀ o ∈ g.2, o.IsBuilt) (hg : IsPlainGroup s types g.2)
    (hc : IsDotted s.requestClient) (hi : HasNoMarker s.requestImport)
    (ht : m.files.find true (typesPath output g.1) =
      .ok (p, some (.file (.text (renderTypesFile s (groupTypes g.2 types) g.2)))))
    (hf : m.files.find true (functionsPath output g.1) =
      .ok (q, some (.file (.text (mergeFunctionsFile existing (renderFunctionsFile s g.2)).content)))) :
    (checkGroup s output types g : Task (StateM Machine) GroupChanges).Ends m ⟨g.1, [], []⟩ m := by
  have htypes := ends_readOutput?_of_find ht
  have hfunctions := ends_readOutput?_of_find hf
  rw [unifyLineEnds_of_notMem (notMem_renderTypesFile hg.words)] at htypes
  have hl : ∀ o ∈ g.2, o.IsLegible := fun o ho => (hb o ho).isLegible (hg.plain o ho)
  have hp : ∀ o ∈ g.2, '\r' ∉ o.cleanPath := fun o ho hr => ((hg.plain o ho).path_plain _ hr).2 rfl
  have hnone := detectOperationChanges_again hl hp hg.unmarked hc hi existing
  refine ends_bind.2 ⟨_, m, htypes, ends_bind.2 ⟨_, m, hfunctions, ends_pure.2 ⟨?_, rfl⟩⟩⟩
  rw [detectTypeChanges_self, hnone]

/-! ## Aliases loaded again -/

theorem ends_loadAliases_of_ne_nil {configured : Table Text} (h : configured ≠ []) {given : Aliases} :
    (loadAliases output configured : Task (StateM Machine) Aliases).Ends m given m' ↔
      { mapping := configured, source := .config } = given ∧ m = m' := by
  unfold loadAliases
  rw [if_pos h]
  exact ends_pure

theorem ends_loadAliases_nil {given : Aliases} :
    (loadAliases output [] : Task (StateM Machine) Aliases).Ends m given m' ↔
      ∃ mapping, (readAliasFile output : Task (StateM Machine) (Table Text)).Ends m mapping m' ∧
        { mapping, source := if mapping = [] then .empty else .file } = given := by
  unfold loadAliases
  rw [if_neg (by simp), ends_bind]
  constructor
  · rintro ⟨mapping, m₁, hread, hend⟩
    obtain ⟨rfl, rfl⟩ := ends_pure.1 hend
    exact ⟨mapping, hread, rfl⟩
  · rintro ⟨mapping, hread, rfl⟩
    exact ⟨mapping, m', hread, ends_pure.2 ⟨rfl, rfl⟩⟩

theorem ends_loadAliases_keeps {configured : Table Text} {given : Aliases}
    (h : (loadAliases output configured : Task (StateM Machine) Aliases).Ends m given m') :
    m'.files = m.files ∧ m'.replies = m.replies ∧ (configured ≠ [] → given.source = .config) := by
  by_cases hconfigured : configured = []
  · subst hconfigured
    obtain ⟨mapping, hread, rfl⟩ := ends_loadAliases_nil.1 h
    obtain ⟨-, -, us, rfl, -⟩ := ends_readAliasFile_again hread
    exact ⟨rfl, rfl, fun hne => absurd rfl hne⟩
  · obtain ⟨rfl, rfl⟩ := (ends_loadAliases_of_ne_nil hconfigured).1 h
    exact ⟨rfl, rfl, fun _ => rfl⟩

/-- The file of aliases, if it is used. -/
def aliasPaths (s : Settings) (output : Path) : List Path :=
  if s.tagMapping = [] then [output.child aliasFileName] else []

theorem aliasWrites_sublist {given : Aliases} (hs : s.tagMapping ≠ [] → given.source = .config) (tags : List Text) :
    ((aliasWrites output (given.register tags)).map Prod.fst).Sublist (aliasPaths s output) := by
  unfold aliasWrites aliasPaths
  by_cases hconfigured : s.tagMapping = []
  · rw [if_pos hconfigured]
    split
    · exact List.nil_sublist _
    · exact .refl _
  · have hsource : (given.register tags).source = given.source := Aliases.source_register
    rw [hs hconfigured] at hsource
    rw [if_pos (by simp [hsource])]
    exact List.nil_sublist _

/-- The writes of an update go to the file of aliases, if it is used, and to the files of the groups. -/
theorem WritesModel.sublist {given : Aliases} {document : Fields} {ws : List (Path × Text)}
    (hw : WritesModel s output given document ws m m')
    (hs : s.tagMapping ≠ [] → given.source = .config) :
    ((aliasWrites output (given.register (allTags document)) ++ ws).map Prod.fst).Sublist
      (aliasPaths s output ++ groupPaths output (plannedModel s given document).operations) := by
  rw [List.map_append, hw.paths_eq]
  exact (aliasWrites_sublist hs _).append (.refl _)

/-- Without a new category the file of aliases stays as it was, and so do the aliases. -/
private theorem ends_loadAliases_of_none_new {given : Aliases} {tags : List Text} {ws : List (Path × Text)}
    {m₁ m₂ : Machine} (hl : (loadAliases output [] : Task (StateM Machine) Aliases).Ends m₁ given m₂)
    (hw : Machine.Writes (aliasWrites output (given.register tags) ++ ws) m₂ m')
    (hsame : tags = [] → m' = m₂)
    (ha : ∀ q ∈ ws.map Prod.fst, ∀ p,
      m'.files.LeadsAt (output.child aliasFileName) p → ¬m'.files.LeadsAt q p)
    (hd : (given.register tags).discovered = []) :
    ∃ us, (loadAliases output [] : Task (StateM Machine) Aliases).Ends m' given (m'.warned us) ∧
      given.register tags = given ∧ given.discovered = [] := by
  obtain ⟨mapping, hread, hgiven⟩ := ends_loadAliases_nil.1 hl
  obtain ⟨-, hfile, us, rfl, hagain⟩ := ends_readAliasFile_again hread
  obtain rfl : given.mapping = mapping := by rw [← hgiven]
  have hwritten := hw.files_written
  have hnone : aliasWrites output (given.register tags) = [] := if_pos (by simp [hd])
  have hhas := Aliases.register_of_discovered hd
  rw [hnone, List.nil_append] at hwritten
  have hfind : m'.files.find true (output.child aliasFileName) =
      m₁.files.find true (output.child aliasFileName) := by
    by_cases hm : given.mapping = []
    · have htags : tags = [] := by
        apply List.eq_nil_iff_forall_not_mem.2
        intro tag ht
        have hempty := hhas tag ht
        rw [hm] at hempty
        exact Bool.false_ne_true hempty
      obtain rfl := hsame htags
      rfl
    · obtain ⟨p, c, hp⟩ := hfile hm
      have hleads := hwritten.grows.leadsAt ⟨_, hp⟩
      exact (hwritten.grows.find_file hp fun q hq => ha q hq p hleads).trans hp.symm
  have hregistered : given.register tags = given := Aliases.register_of_has hhas
  exact ⟨us, ends_loadAliases_nil.2 ⟨given.mapping, hagain m' hfind, hgiven⟩, hregistered, by rw [← hgiven]⟩

/-- With a new category all aliases are written, and they are read as they were registered. -/
private theorem ends_loadAliases_of_some_new {given : Aliases} {tags : List Text} {ws : List (Path × Text)}
    {m₁ m₂ : Machine} (hl : (loadAliases output [] : Task (StateM Machine) Aliases).Ends m₁ given m₂)
    (hw : Machine.Writes (aliasWrites output (given.register tags) ++ ws) m₂ m')
    (ha : ∀ q ∈ ws.map Prod.fst, ∀ p,
      m'.files.LeadsAt (output.child aliasFileName) p → ¬m'.files.LeadsAt q p)
    (hd : (given.register tags).discovered ≠ []) :
    ∃ given', (loadAliases output [] : Task (StateM Machine) Aliases).Ends m' given' m' ∧
      given'.mapping = (given.register tags).mapping ∧ given'.register tags = given' ∧ given'.discovered = [] := by
  obtain ⟨mapping, hread, hgiven⟩ := ends_loadAliases_nil.1 hl
  obtain ⟨hnodup, -, us, rfl, -⟩ := ends_readAliasFile_again hread
  obtain rfl : given.mapping = mapping := by rw [← hgiven]
  have hwritten := hw.files_written
  have hsource : (given.register tags).source ≠ .config := by
    rw [Aliases.source_register, ← hgiven]
    dsimp only
    split <;> decide
  have hsome : aliasWrites output (given.register tags) =
      [(output.child aliasFileName, Json.write (Aliases.toValue (given.register tags).mapping) ++ "\n")] :=
    if_neg (by simp [hd, hsource])
  rw [hsome, List.singleton_append] at hwritten
  obtain ⟨p, hp⟩ : ∃ p, m'.files.find true (output.child aliasFileName) =
      .ok (p, some (.file (.text (Json.write (Aliases.toValue (given.register tags).mapping) ++ "\n")))) := by
    cases hwritten with
    | write _ hwrite hs =>
      obtain ⟨p, hp⟩ := (write_grows hwrite).2
      exact ⟨p, hs.grows.find_file hp fun q hq => ha q hq p (hs.grows.leadsAt ⟨_, hp⟩)⟩
  have hread' := ends_readAliasFile_written (Aliases.nodup_register hnodup) hp
  exact ⟨_, ends_loadAliases_nil.2 ⟨_, hread', rfl⟩, rfl, Aliases.register_again (a := given) (by rfl), rfl⟩

/-- The aliases loaded after an update register to the same ones, and those of the file are registered already. -/
theorem ends_loadAliases_after {given : Aliases} {tags : List Text} {ws : List (Path × Text)} {m₁ m₂ : Machine}
    (hl : (loadAliases output s.tagMapping : Task (StateM Machine) Aliases).Ends m₁ given m₂)
    (hw : Machine.Writes (aliasWrites output (given.register tags) ++ ws) m₂ m')
    (hsame : (given.register tags).discovered = [] → tags = [] → m' = m₂)
    (ha : ∀ a ∈ aliasPaths s output, ∀ q ∈ ws.map Prod.fst, ∀ p, m'.files.LeadsAt a p → ¬m'.files.LeadsAt q p) :
    ∃ given' us,
      (loadAliases output s.tagMapping : Task (StateM Machine) Aliases).Ends m' given' (m'.warned us) ∧
        (given'.register tags).mapping = (given.register tags).mapping ∧
        (s.tagMapping = [] → given'.register tags = given' ∧ given'.discovered = []) := by
  by_cases hconfigured : s.tagMapping = []
  · rw [aliasPaths, if_pos hconfigured, List.forall_mem_singleton] at ha
    rw [hconfigured] at hl ⊢
    by_cases hd : (given.register tags).discovered = []
    · obtain ⟨us, hload, hregistered⟩ := ends_loadAliases_of_none_new hl hw (hsame hd) ha hd
      exact ⟨given, us, hload, rfl, fun _ => hregistered⟩
    · obtain ⟨given', hload, hmapping, hregistered⟩ := ends_loadAliases_of_some_new hl hw ha hd
      refine ⟨given', [], by simpa using hload, ?_, fun _ => hregistered⟩
      rw [hregistered.1, hmapping]
  · obtain ⟨rfl, rfl⟩ := (ends_loadAliases_of_ne_nil hconfigured).1 hl
    exact ⟨_, [], (ends_loadAliases_of_ne_nil hconfigured).2 ⟨rfl, by simp⟩, rfl, fun h => absurd h hconfigured⟩

theorem ends_loadAliases_again {given : Aliases} {document : Fields} {ws : List (Path × Text)}
    {m₁ m₂ : Machine}
    (hl : (loadAliases output s.tagMapping : Task (StateM Machine) Aliases).Ends m₁ given m₂)
    (hw : WritesModel s output given document ws m₂ m')
    (ha : m'.files.Apart (aliasPaths s output ++ groupPaths output (plannedModel s given document).operations)) :
    ∃ given' us,
      (loadAliases output s.tagMapping : Task (StateM Machine) Aliases).Ends m' given' (m'.warned us) ∧
        plannedModel s given' document = plannedModel s given document := by
  obtain ⟨given', us, hgiven', hmapping, -⟩ := ends_loadAliases_after hl hw.written
    (fun hd ht => hw.same hd (ApiModel.operations_eq_nil ht s _))
    (fun a hmem q hq => (List.pairwise_append.1 ha).2.2 a hmem q (hw.paths_eq ▸ hq))
  exact ⟨given', us, hgiven', ApiModel.ofDocument_congr hmapping s document⟩

/-! ## The whole check -/

/-- The model of a project, loaded as updates and checks load it. -/
def loadModel (s : Settings) (directory : Path) : Task (StateM Machine) ApiModel := do
  let document ← loadDescription directory s.input
  let given ← loadAliases (directory / Path.ofText s.output) s.tagMapping
  return plannedModel s given document

/-- The files that an update reads or writes: the description, the file of aliases and those of the groups. -/
def usedPaths (s : Settings) (directory : Path) (model : ApiModel) : List Path :=
  (if isRemote s.input then [] else [directory / Path.ofText s.input]) ++
    (aliasPaths s (directory / Path.ofText s.output) ++
      groupPaths (directory / Path.ofText s.output) model.operations)

theorem isFileName_typesFileName : IsFileName typesFileName := ⟨by decide, by decide, by decide, by decide⟩

theorem isFileName_functionsFileName : IsFileName functionsFileName := ⟨by decide, by decide, by decide, by decide⟩

theorem isFileName_aliasFileName : IsFileName aliasFileName := ⟨by decide, by decide, by decide, by decide⟩

private theorem groupPlaces_eq {groups : Table (List Operation)} (hg : ∀ g ∈ groups, IsFileName g.1)
    (here : Place) :
    (groupPaths output groups).map (Path.placeFrom here) = groups.flatMap fun g =>
      [output.placeFrom here ++ [g.1] ++ [typesFileName],
        output.placeFrom here ++ [g.1] ++ [functionsFileName]] := by
  rw [groupPaths, List.map_flatMap]
  apply List.flatMap_congr
  intro g hmem
  simp only [typesPath, functionsPath, List.map_cons, List.map_nil, Path.placeFrom_child _ _ isFileName_typesFileName,
    Path.placeFrom_child _ _ isFileName_functionsFileName, Path.placeFrom_child _ _ (hg g hmem)]

private theorem nodup_groupPlaces {groups : Table (List Operation)} (hn : groups.keys.Nodup)
    (hg : ∀ g ∈ groups, IsFileName g.1) (here : Place) :
    ((groupPaths output groups).map (Path.placeFrom here)).Nodup := by
  rw [groupPlaces_eq hg, List.nodup_flatMap]
  constructor
  · intro g _
    have hne : typesFileName ≠ functionsFileName := by decide
    simp [hne]
  · apply (List.pairwise_map.1 hn).imp
    intro g g' hne p hp hp'
    simp only [List.mem_cons, List.not_mem_nil, or_false] at hp hp'
    rcases hp with rfl | rfl <;> rcases hp' with heq | heq <;> simp [hne] at heq

/-- The files that are used are apart in a tree without links, if the names of the groups are those of
directories and the description is not where something is generated. -/
theorem apart_usedPaths {t : FileTree} {model : ApiModel} (hl : t.HasNoLinks)
    (hn : model.operations.keys.Nodup) (hg : ∀ g ∈ model.operations, IsFileName g.1)
    (hin : isRemote s.input = false → (directory / Path.ofText s.input).placeFrom t.here ∉
      (aliasPaths s (directory / Path.ofText s.output) ++
        groupPaths (directory / Path.ofText s.output) model.operations).map (Path.placeFrom t.here)) :
    t.Apart (usedPaths s directory model) := by
  have hgroups : ((groupPaths (directory / Path.ofText s.output) model.operations).map
      (Path.placeFrom t.here)).Nodup := nodup_groupPlaces hn hg t.here
  have hgenerated : ((aliasPaths s (directory / Path.ofText s.output) ++
      groupPaths (directory / Path.ofText s.output) model.operations).map (Path.placeFrom t.here)).Nodup := by
    unfold aliasPaths
    split
    · refine List.nodup_cons.2 ⟨fun hmem => ?_, hgroups⟩
      rw [Path.placeFrom_child _ _ isFileName_aliasFileName, List.append_eq, List.nil_append, groupPlaces_eq hg,
        List.mem_flatMap] at hmem
      obtain ⟨g, -, hmem⟩ := hmem
      simp at hmem
    · exact hgroups
  apply hl.apart
  unfold usedPaths
  split
  · exact hgenerated
  · next hremote => exact List.nodup_cons.2 ⟨hin (by simpa using hremote), hgenerated⟩

private theorem ends_loadDescription_after {given : Aliases} {document : Fields} {ws : List (Path × Text)}
    {m₁ m₂ : Machine}
    (hd : (loadDescription directory s.input : Task (StateM Machine) Fields).Ends m document m₁)
    (hl : (loadAliases (directory / Path.ofText s.output) s.tagMapping :
      Task (StateM Machine) Aliases).Ends m₁ given m₂)
    (hw : WritesModel s (directory / Path.ofText s.output) given document ws m₂ m')
    (ha : m'.files.Apart (usedPaths s directory (plannedModel s given document))) :
    (loadDescription directory s.input : Task (StateM Machine) Fields).Ends m' document m' := by
  obtain ⟨rfl, hagain⟩ := ends_loadDescription_again hd
  obtain ⟨hfiles, hreplies, hsource⟩ := ends_loadAliases_keeps hl
  refine hagain m' (hw.written.replies_eq.trans hreplies) fun hr p c hf => ?_
  rw [usedPaths, hr, if_neg Bool.false_ne_true, List.singleton_append] at ha
  rw [← hfiles] at hf
  exact hw.written.files_written.find_of_apart hf (ha.sublist ((hw.sublist hsource).cons_cons _))

theorem update_hasNoLinks {result : UpdateResult} (hl : m.files.HasNoLinks)
    (hu : (update s directory {} : Task (StateM Machine) UpdateResult).Ends m result m') :
    m'.files.HasNoLinks := by
  obtain ⟨document, m₁, given, m₂, ws, hdocument, hgiven, hwrites⟩ := ends_update hu
  obtain ⟨rfl, -⟩ := ends_loadDescription_again hdocument
  obtain ⟨hfiles, -⟩ := ends_loadAliases_keeps hgiven
  exact hwrites.written.files_written.grows.hasNoLinks (hfiles ▸ hl)

/-- A check that follows an update finds no changes, whatever the files of functions held before. -/
theorem check_after_update {model : ApiModel} {result : UpdateResult} {m₁ : Machine}
    (hu : (update s directory {} : Task (StateM Machine) UpdateResult).Ends m result m')
    (hm : (loadModel s directory).Ends m model m₁)
    (ha : m'.files.Apart (usedPaths s directory model))
    (hw : m'.files.CanWrite (directory.child changelogName))
    (hg : ∀ g ∈ model.operations, IsPlainGroup s model.allTypes g.2)
    (hc : IsDotted s.requestClient) (hi : HasNoMarker s.requestImport) (generatedAt : Text) :
    ∃ r m'', (check s directory generatedAt : Task (StateM Machine) CheckResult).Ends m' r m'' ∧
      r.report = ⟨generatedAt, []⟩ := by
  obtain ⟨document, m₂, given, m₃, ws, hdocument, hgiven, hwrites⟩ := ends_update hu
  have hmodel : model = plannedModel s given document := by
    have hload : (loadModel s directory).Ends m (plannedModel s given document) m₃ :=
      ends_bind.2 ⟨document, m₂, hdocument, ends_bind.2 ⟨given, m₃, hgiven, ends_pure.2 ⟨rfl, rfl⟩⟩⟩
    exact (hm.unique hload).1
  subst hmodel
  have hsource := (ends_loadAliases_keeps hgiven).2.2
  have hafter : m'.files.Apart (aliasPaths s (directory / Path.ofText s.output) ++
      groupPaths (directory / Path.ofText s.output) (plannedModel s given document).operations) :=
    ha.sublist (List.sublist_append_right _ _)
  have hagain := ends_loadDescription_after hdocument hgiven hwrites ha
  obtain ⟨given', us, hgiven', hsame⟩ := ends_loadAliases_again hgiven hwrites hafter
  have hfind : ∀ w ∈ ws, ∃ p, m'.files.find true w.1 = .ok (p, some (.file (.text w.2))) := fun w hmem =>
    hwrites.written.files_written.find (hafter.sublist (hwrites.sublist hsource)) (List.mem_append_right _ hmem)
  have hgroups : ((plannedModel s given document).operations.mapM
      (checkGroup s (directory / Path.ofText s.output) (plannedModel s given document).allTypes) :
        Task (StateM Machine) _).Ends (m'.warned us)
      ((plannedModel s given document).operations.map fun g => ⟨g.1, [], []⟩) (m'.warned us) := by
    apply ends_mapM_of_forall
    intro g hmem
    obtain ⟨existing, hexisting⟩ := hwrites.groups_written g hmem
    obtain ⟨p, hp⟩ := hfind _ (hexisting _ List.mem_cons_self)
    obtain ⟨q, hq⟩ := hfind _ (hexisting _ (List.mem_cons_of_mem _ List.mem_cons_self))
    exact ends_checkGroup_again (fun o ho => ApiModel.isBuilt hmem ho) (hg g hmem) hc hi hp hq
  have hnone : ((plannedModel s given' document).operations.map fun g =>
      (⟨g.1, [], []⟩ : GroupChanges)).filter GroupChanges.isChange = [] := by
    apply List.filter_eq_nil_iff.2
    intro r hr
    obtain ⟨g, -, rfl⟩ := List.mem_map.1 hr
    exact Bool.false_ne_true
  obtain ⟨files, hfiles⟩ := hw.write (.text (ChangeReport.changelog ⟨generatedAt, []⟩))
  rw [← hsame] at hgroups
  refine ⟨⟨⟨generatedAt, []⟩, directory.child changelogName, (plannedModel s given' document).warnings⟩,
    { m'.warned us with files }, ?_, rfl⟩
  refine ends_bind.2 ⟨document, m', hagain, ends_bind.2 ⟨given', _, hgiven', ends_bind.2 ⟨_, _, hgroups, ?_⟩⟩⟩
  rw [hnone]
  exact ends_bind.2 ⟨(), _, ends_writeText.2 ⟨files, hfiles, rfl⟩, ends_pure.2 ⟨rfl, rfl⟩⟩

/-! ### A project -/

def petsText : Text := "\x7b\"paths\":\x7b\"/pets\":\x7b\"get\":\x7b\"tags\":[\"pets\"]\x7d\x7d\x7d\x7d"

def petsDocument : Fields :=
  let operation : Value := .object [(.text "tags", .list [.scalar (.text "pets")])]
  [(.text "paths", .object [(.text "/pets", .object [(.text "get", operation)])])]

def petsOperation (group : Text) : Operation :=
  { path := "/pets", cleanPath := "/pets", group, callName := "getPets" }

/-- A project with the description and whatever else is in its directories. -/
def petsTree (rest : List (Place × Entry)) : FileTree where
  here := []
  entries :=
    (["swagger.json"], .file (.text petsText)) :: (["src"], .directory) :: (["src", "api"], .directory) :: rest

def petsDirectory : Path := ⟨[], []⟩

def petsOutput : Path := petsDirectory / Path.ofText "./src/api"

theorem loadDescription_pets {rest : List (Place × Entry)} (h : m.files = petsTree rest) :
    (loadDescription petsDirectory "./swagger.json" : Task (StateM Machine) Fields).Ends m petsDocument m := by
  have hfind : (petsTree rest).find true (petsDirectory / Path.ofText "./swagger.json") =
      .ok (["swagger.json".toList], some (.file (.text petsText))) := by cbv
  have hparse : parseDescription (petsDirectory / Path.ofText "./swagger.json").toText petsText =
      .ok petsDocument := by cbv
  rw [← h] at hfind
  exact ends_loadDescription_of_find (by decide) hfind (by decide) hparse

/-- A project with a file of functions that was written by hand. -/
def pets : Machine where
  files := petsTree
    [(["src", "api", "pets"], .directory),
      (["src", "api", "pets", "index.ts"], .file (.text "export const own = 1;\n"))]

def petsAliases : Aliases := { mapping := [("pets", "pets")], discovered := ["pets"] }

def petsAliasText : Text := Json.write (Aliases.toValue petsAliases.mapping) ++ "\n"

def petsFunctions : Text :=
  (mergeFunctionsFile (some "export const own = 1;\n") (renderFunctionsFile {} [petsOperation "pets"])).content

/-- The project with the file of aliases. -/
private def petsSaved : Machine where
  files := petsTree
    [(["src", "api", "pets"], .directory),
      (["src", "api", "pets", "index.ts"], .file (.text "export const own = 1;\n")),
      (["src", "api", "tag-mapping.json"], .file (.text petsAliasText))]

def petsUpdated : Machine where
  files := petsTree
    [(["src", "api", "pets"], .directory),
      (["src", "api", "pets", "index.ts"], .file (.text petsFunctions)),
      (["src", "api", "tag-mapping.json"], .file (.text petsAliasText)),
      (["src", "api", "pets", "types.ts"], .file (.text (renderTypesFile {} [] [petsOperation "pets"])))]
  warnings := [.overwritten "src/api/pets/index.ts"]

def petsModel : ApiModel := plannedModel {} {} petsDocument

theorem loadAliases_pets :
    (loadAliases petsOutput [] : Task (StateM Machine) Aliases).Ends pets {} pets := by
  unfold Ends
  cbv

theorem loadModel_pets : (loadModel {} petsDirectory).Ends pets petsModel pets :=
  ends_bind.2 ⟨_, _, loadDescription_pets rfl, ends_bind.2 ⟨_, _, loadAliases_pets, ends_pure.2 ⟨rfl, rfl⟩⟩⟩

theorem petsModel_operations : petsModel.operations = [("pets".toList, [petsOperation "pets"])] := by cbv

theorem petsModel_allTypes : petsModel.allTypes = [] := by cbv

theorem ends_generateGroups_of_group {s : Settings} {model : ApiModel} {types : List NamedType} {output : Path}
    {g : Text × List Operation} {r : GroupResult} (hoperations : model.operations = [g])
    (htypes : model.allTypes = types)
    (hgroup : (generateGroup s output types g : Task (StateM Machine) GroupResult).Ends m r m') :
    (model.operations.mapM (generateGroup s output model.allTypes) : Task (StateM Machine) _).Ends m [r] m' := by
  rw [hoperations, htypes]
  exact ends_mapM_cons.2 ⟨_, _, [], hgroup, ends_mapM_nil.2 ⟨rfl, rfl⟩, rfl⟩

/-- An update in the directory of the project, of a description that has the operations of one group. -/
theorem update_of_group {document : Fields} {given : Aliases} {types : List NamedType} {m₁ m₂ : Machine}
    {g : Text × List Operation} {r : GroupResult}
    (hdocument : (loadDescription petsDirectory "./swagger.json" : Task (StateM Machine) Fields).Ends m document m)
    (hgiven : (loadAliases petsOutput [] : Task (StateM Machine) Aliases).Ends m given m₁)
    (hsaved : (saveAliases petsOutput (given.register (allTags document)) :
      Task (StateM Machine) Unit).Ends m₁ () m₂)
    (hoperations : (plannedModel {} given document).operations = [g])
    (htypes : (plannedModel {} given document).allTypes = types)
    (hgroup : (generateGroup {} petsOutput types g : Task (StateM Machine) GroupResult).Ends m₂ r m') :
    ∃ result, (update {} petsDirectory {} : Task (StateM Machine) UpdateResult).Ends m result m' ∧
      result.groups = [r] ∧ result.newLabels = given.newlyDiscovered (given.register (allTags document)) := by
  have hgroups := ends_generateGroups_of_group hoperations htypes hgroup
  exact ⟨_, ends_bind.2 ⟨_, _, hdocument, ends_bind.2 ⟨_, _, hgiven, ends_bind.2 ⟨_, _, hsaved,
    ends_bind.2 ⟨_, _, hgroups, ends_pure.2 ⟨rfl, rfl⟩⟩⟩⟩⟩, rfl, rfl⟩

theorem register_pets : Aliases.register {} (allTags petsDocument) = petsAliases := by cbv

set_option maxRecDepth 4000 in
theorem update_pets :
    ∃ result, (update {} petsDirectory {} : Task (StateM Machine) UpdateResult).Ends pets result petsUpdated := by
  have hsaved : (saveAliases petsOutput petsAliases : Task (StateM Machine) Unit).Ends pets () petsSaved := by
    unfold Ends
    cbv
  have hgroup : (generateGroup {} petsOutput [] ("pets", [petsOperation "pets"]) :
      Task (StateM Machine) GroupResult).Ends petsSaved ⟨"pets", .replaced, 1, 0⟩ petsUpdated := by
    unfold Ends
    cbv
  rw [← register_pets] at hsaved
  obtain ⟨result, hupdate, -⟩ := update_of_group (loadDescription_pets rfl) loadAliases_pets hsaved
    petsModel_operations petsModel_allTypes hgroup
  exact ⟨result, hupdate⟩

theorem isPlainGroup_pets : IsPlainGroup {} [] [petsOperation "pets"] where
  plain o ho := by
    rw [List.mem_singleton.1 ho]
    refine ⟨?_, by simp [petsOperation], ?_, by simp [petsOperation]⟩
    · unfold IsPathChar
      decide
    · simp [petsOperation, Operation.named?]
  unmarked o ho := by
    rw [List.mem_singleton.1 ho]
    have hpath : (petsOperation "pets").requestPath = "'/pets'" := by cbv
    refine ⟨by simp [petsOperation], ?_⟩
    rw [hpath]
    exact .of_notMem (c := ' ') (by decide) (by decide)
  words := by
    have hnone : typesFileDeclarations {} (groupTypes [petsOperation "pets"] []) [petsOperation "pets"] = [] := by
      cbv
    rw [hnone]
    simp

/-- In the project, whose file of functions was replaced by an update, a check finds no changes. -/
theorem check_after_update_of_pets :
    ∃ result r m', (update {} petsDirectory {} : Task (StateM Machine) UpdateResult).Ends pets result petsUpdated ∧
      (check {} petsDirectory "2026-01-01" : Task (StateM Machine) CheckResult).Ends petsUpdated r m' ∧
      r.report = ⟨"2026-01-01", []⟩ := by
  obtain ⟨result, hupdate⟩ := update_pets
  have hlinks : pets.files.HasNoLinks := .of_entries (by simp [pets, petsTree])
  have hinput : (petsDirectory / Path.ofText "./swagger.json").placeFrom petsUpdated.files.here ∉
      (aliasPaths {} petsOutput ++ groupPaths petsOutput petsModel.operations).map
        (Path.placeFrom petsUpdated.files.here) := by
    rw [petsModel_operations]
    decide +kernel
  have hapart : petsUpdated.files.Apart (usedPaths {} petsDirectory petsModel) := by
    apply apart_usedPaths (update_hasNoLinks hlinks hupdate) (Table.nodup_keys_groupBy _ _) ?_ fun _ => hinput
    rw [petsModel_operations]
    intro g hg
    rw [List.mem_singleton.1 hg]
    exact ⟨by decide, by decide, by decide, by decide⟩
  have hchangelog : petsUpdated.files.find true (petsDirectory.child changelogName) =
      .ok ([changelogName], none) := by decide +kernel
  have hplain : ∀ g ∈ petsModel.operations, IsPlainGroup {} petsModel.allTypes g.2 := by
    rw [petsModel_operations, petsModel_allTypes]
    intro g hg
    rw [List.mem_singleton.1 hg]
    exact isPlainGroup_pets
  have hclient : IsDotted ({} : Settings).requestClient := by
    unfold IsDotted
    decide
  obtain ⟨r, m', hcheck, hreport⟩ := check_after_update hupdate loadModel_pets hapart ⟨_, .inl hchangelog⟩ hplain
    hclient (.of_notMem (c := ' ') (by decide) (by decide)) "2026-01-01"
  exact ⟨result, r, m', hupdate, hcheck, hreport⟩

/-! ### Projects in which a check does not find what was written -/

/-- A project in which a directory has the name of the report. -/
private def blocked : Machine where
  files := { here := [], entries := [(["swagger.json"], .file (.text "\x7b\x7d")), (["changelog.md"], .directory)] }

/-- A project in which the file of aliases is a link to the file of types of a group. -/
def linkedTree (types : Text) (rest : List (Place × Entry)) : FileTree :=
  petsTree
    ((["src", "api", "tag-mapping.json"], .link "animals/types.ts") :: (["src", "api", "animals"], .directory) ::
      (["src", "api", "animals", "types.ts"], .file (.text types)) :: rest)

def linked : Machine where
  files := linkedTree "\x7b\"pets\":\"animals\"\x7d" []

def linkedTypes : Text := renderTypesFile {} [] [petsOperation "animals"]

def linkedFunctions : Text :=
  (mergeFunctionsFile none (renderFunctionsFile {} [petsOperation "animals"])).content

def linkedUpdated : Machine where
  files := linkedTree linkedTypes [(["src", "api", "animals", "index.ts"], .file (.text linkedFunctions))]

/-- The project after the aliases were looked for again. -/
def linkedWarned : Machine := linkedUpdated.warned [.aliasesUnread "src/api/tag-mapping.json"]

private def linkedAliases : Aliases := { mapping := [("pets", "animals")], source := .file }

private def linkedModel : ApiModel := plannedModel {} linkedAliases petsDocument

private theorem linkedModel_operations :
    linkedModel.operations = [("animals".toList, [petsOperation "animals"])] := by cbv

private theorem linkedModel_allTypes : linkedModel.allTypes = [] := by cbv

set_option maxRecDepth 4000 in
theorem update_linked :
    ∃ result, (update {} petsDirectory {} : Task (StateM Machine) UpdateResult).Ends linked result linkedUpdated := by
  have haliases : (loadAliases petsOutput [] : Task (StateM Machine) Aliases).Ends linked linkedAliases linked := by
    unfold Ends
    cbv
  have hsaved : (saveAliases petsOutput (linkedAliases.register (allTags petsDocument)) :
      Task (StateM Machine) Unit).Ends linked () linked := by
    unfold Ends
    cbv
  have hgroup : (generateGroup {} petsOutput [] ("animals", [petsOperation "animals"]) :
      Task (StateM Machine) GroupResult).Ends linked ⟨"animals", .created, 1, 0⟩ linkedUpdated := by
    unfold Ends
    cbv
  obtain ⟨result, hupdate, -⟩ := update_of_group (loadDescription_pets rfl) haliases hsaved
    linkedModel_operations linkedModel_allTypes hgroup
  exact ⟨result, hupdate⟩

private def linkedChanges : GroupChanges := ⟨"pets", [], [⟨"getPets", .added, "/pets", "get"⟩]⟩

private theorem check_linked :
    ∃ r m', (check {} petsDirectory "2026-01-01" : Task (StateM Machine) CheckResult).Ends linkedUpdated r m' ∧
      r.report = ⟨"2026-01-01", [linkedChanges]⟩ := by
  have haliases : (loadAliases petsOutput [] : Task (StateM Machine) Aliases).Ends linkedUpdated {}
      linkedWarned := by
    unfold Ends
    cbv
  have hgroup : (checkGroup {} petsOutput [] ("pets", [petsOperation "pets"]) :
      Task (StateM Machine) GroupChanges).Ends linkedWarned linkedChanges linkedWarned := by
    unfold Ends
    cbv
  have hgroups : (petsModel.operations.mapM (checkGroup {} petsOutput petsModel.allTypes) :
      Task (StateM Machine) _).Ends linkedWarned [linkedChanges] linkedWarned := by
    rw [petsModel_operations, petsModel_allTypes]
    exact ends_mapM_cons.2 ⟨_, _, [], hgroup, ends_mapM_nil.2 ⟨rfl, rfl⟩, rfl⟩
  have hchangelog : linkedWarned.files.find true (petsDirectory.child changelogName) =
      .ok ([changelogName], none) := by decide +kernel
  have hwrite : linkedWarned.files.CanWrite (petsDirectory.child changelogName) := ⟨_, .inl hchangelog⟩
  obtain ⟨files, hfiles⟩ := hwrite.write (.text (ChangeReport.changelog ⟨"2026-01-01", [linkedChanges]⟩))
  exact ⟨_, _, ends_bind.2 ⟨_, _, loadDescription_pets rfl, ends_bind.2 ⟨_, _, haliases, ends_bind.2 ⟨_, _, hgroups,
    ends_bind.2 ⟨(), _, ends_writeText.2 ⟨files, hfiles, rfl⟩, ends_pure.2 ⟨rfl, rfl⟩⟩⟩⟩⟩, rfl⟩

/-- A check that follows an update fails if the report cannot be written, and it reports changes if a link
makes two of the files one. -/
theorem check_after_update_hindered :
    (∃ result m', (update {} petsDirectory {} : Task (StateM Machine) UpdateResult).Ends blocked result m' ∧
      ∀ r m'', ¬(check {} petsDirectory "2026-01-01" : Task (StateM Machine) CheckResult).Ends m' r m'') ∧
    ∃ result r m',
      (update {} petsDirectory {} : Task (StateM Machine) UpdateResult).Ends linked result linkedUpdated ∧
      (check {} petsDirectory "2026-01-01" : Task (StateM Machine) CheckResult).Ends linkedUpdated r m' ∧
      r.report = ⟨"2026-01-01", [linkedChanges]⟩ := by
  constructor
  · obtain ⟨result, hupdate⟩ := exists_ends (m := blocked)
      (x := (update {} petsDirectory {} : Task (StateM Machine) UpdateResult)) (by decide +kernel)
    exact ⟨result, _, hupdate, fun r m'' => not_ends (by decide +kernel)⟩
  · obtain ⟨result, hupdate⟩ := update_linked
    obtain ⟨r, m', hcheck, hreport⟩ := check_linked
    exact ⟨result, r, m', hupdate, hcheck, hreport⟩

end ClientGen
