import ClientGen.Proofs.Project.Check
/-!
# Functions that are gone

A check against another description reports the functions that were generated and are no longer asked for, in
every group that the other description still has. A group that it has no operation of is not looked at.
-/

namespace ClientGen

open Text ClientGen.Task FileTree

variable {s : Settings} {output directory : Path} {m m' n : Machine}

/-! ## What a check reads -/

/-- A file that can be read as a text, or no file at all. -/
def FileTree.CanRead (t : FileTree) (path : Path) : Prop :=
  t.isFile path = .ok false ∨ ∃ old, t.isFile path = .ok true ∧ t.read path = .ok (.text old)

theorem FileTree.CanRead.ends (h : n.files.CanRead path) :
    ∃ t, (readOutput? path : Task (StateM Machine) (Option Text)).Ends n t n := by
  rcases h with h | ⟨old, h, hread⟩
  · exact ⟨none, ends_readOutput?.2 ⟨.inl ⟨h, rfl⟩, rfl⟩⟩
  · exact ⟨_, ends_readOutput?.2 ⟨.inr ⟨old, h, hread, rfl⟩, rfl⟩⟩

theorem ends_mapM_of_exists {α β : Type} {f : α → Task (StateM Machine) β} {P : α → β → Prop} {as : List α}
    (h : ∀ a ∈ as, ∃ b, (f a).Ends n b n ∧ P a b) :
    ∃ bs, (as.mapM f).Ends n bs n ∧ (∀ a ∈ as, ∃ b ∈ bs, P a b) ∧ ∀ b ∈ bs, ∃ a ∈ as, P a b := by
  induction as with
  | nil => exact ⟨[], ends_mapM_nil.2 ⟨rfl, rfl⟩, by simp, by simp⟩
  | cons a as ih =>
    obtain ⟨b, hb, hp⟩ := h a List.mem_cons_self
    obtain ⟨bs, hbs, hall, hfrom⟩ := ih fun a ha => h a (List.mem_cons_of_mem _ ha)
    refine ⟨b :: bs, ends_mapM_cons.2 ⟨b, n, bs, hb, hbs, rfl⟩, ?_, ?_⟩
    · intro a' ha'
      rcases List.mem_cons.1 ha' with rfl | ha'
      · exact ⟨b, List.mem_cons_self, hp⟩
      · obtain ⟨b', hb', hp'⟩ := hall a' ha'
        exact ⟨b', List.mem_cons_of_mem _ hb', hp'⟩
    · intro b' hb'
      rcases List.mem_cons.1 hb' with rfl | hb'
      · exact ⟨a, List.mem_cons_self, hp⟩
      · obtain ⟨a', ha', hp'⟩ := hfrom b' hb'
        exact ⟨a', List.mem_cons_of_mem _ ha', hp'⟩

/-- The changes that a check finds in a group, given what it reads. -/
structure IsFoundIn (output : Path) (n : Machine) (g : Text × List Operation) (c : GroupChanges) : Prop where
  group_eq : c.group = g.1
  operations_eq : ∀ t, (readOutput? (functionsPath output g.1) : Task (StateM Machine) (Option Text)).Ends n t n →
    c.operations = detectOperationChanges g.2 t

theorem ends_checkGroup {types : List NamedType} {g : Text × List Operation}
    (ht : n.files.CanRead (typesPath output g.1)) (hf : n.files.CanRead (functionsPath output g.1)) :
    ∃ c, (checkGroup s output types g : Task (StateM Machine) GroupChanges).Ends n c n ∧
      IsFoundIn output n g c := by
  obtain ⟨declared, htypes⟩ := ht.ends
  obtain ⟨exported, hfunctions⟩ := hf.ends
  refine ⟨_, ends_bind.2 ⟨_, n, htypes, ends_bind.2 ⟨_, n, hfunctions, ends_pure.2 ⟨rfl, rfl⟩⟩⟩, rfl, ?_⟩
  intro t h
  rw [(h.unique hfunctions).1]

theorem ends_check {model : ApiModel} {n' : Machine} (hm : (loadModel s directory).Ends n model n')
    (hr : ∀ path ∈ groupPaths (directory / Path.ofText s.output) model.operations, n'.files.CanRead path)
    (hw : n'.files.CanWrite (directory.child changelogName)) (generatedAt : Text) :
    ∃ r n'', ∃ groups : List GroupChanges,
      (check s directory generatedAt : Task (StateM Machine) CheckResult).Ends n r n'' ∧
      r.report = ⟨generatedAt, groups.filter GroupChanges.isChange⟩ ∧
      (∀ g ∈ model.operations, ∃ c ∈ groups, IsFoundIn (directory / Path.ofText s.output) n' g c) ∧
      ∀ c ∈ groups, ∃ g ∈ model.operations, IsFoundIn (directory / Path.ofText s.output) n' g c := by
  obtain ⟨document, n₁, hdocument, hm⟩ := ends_bind.1 hm
  obtain ⟨given, n₂, hgiven, hm⟩ := ends_bind.1 hm
  obtain ⟨rfl, rfl⟩ := ends_pure.1 hm
  obtain ⟨groups, hgroups, hall, hfrom⟩ := ends_mapM_of_exists
    (f := checkGroup s (directory / Path.ofText s.output) (plannedModel s given document).allTypes)
    (P := IsFoundIn (directory / Path.ofText s.output) n₂)
    fun g (hg : g ∈ (plannedModel s given document).operations) => ends_checkGroup (hr _ (List.mem_flatMap.2 ⟨g, hg, List.mem_cons_self⟩))
      (hr _ (List.mem_flatMap.2 ⟨g, hg, List.mem_cons_of_mem _ List.mem_cons_self⟩))
  obtain ⟨files, hfiles⟩ := hw.write
    (.text (ChangeReport.changelog ⟨generatedAt, groups.filter GroupChanges.isChange⟩))
  refine ⟨⟨⟨generatedAt, groups.filter GroupChanges.isChange⟩, directory.child changelogName,
    (plannedModel s given document).warnings⟩, { n₂ with files }, groups, ?_, rfl, hall, hfrom⟩
  exact ends_bind.2 ⟨document, n₁, hdocument, ends_bind.2 ⟨given, _, hgiven, ends_bind.2 ⟨groups, _, hgroups,
    ends_bind.2 ⟨(), _, ends_writeText.2 ⟨files, hfiles, rfl⟩, ends_pure.2 ⟨rfl, rfl⟩⟩⟩⟩⟩

theorem eq_of_loadModel {model : ApiModel} {n' : Machine} (hm : (loadModel s directory).Ends n model n')
    {g h : Text × List Operation} (hg : g ∈ model.operations) (hh : h ∈ model.operations) (heq : g.1 = h.1) :
    g = h := by
  obtain ⟨document, n₁, -, hm⟩ := ends_bind.1 hm
  obtain ⟨given, n₂, -, hm⟩ := ends_bind.1 hm
  obtain ⟨rfl, rfl⟩ := ends_pure.1 hm
  have hnodup : (plannedModel s given document).operations.keys.Nodup := Table.nodup_keys_groupBy _ _
  have hfirst := Table.get?_of_mem hnodup hg
  have hsecond := Table.get?_of_mem hnodup hh
  rw [heq] at hfirst
  exact Prod.ext heq (Option.some.inj (hfirst.symm.trans hsecond))

/-! ## What a check reports -/

/-- A function that is reported as removed from a group. -/
def ChangeReport.Removes (r : ChangeReport) (group name : Text) : Prop :=
  ∃ g ∈ r.groups, g.group = group ∧ ∃ c ∈ g.operations, c.kind = .removed ∧ c.callName = name

theorem removed_iff {operations later : List Operation} {t : Text}
    (h : Source.exportedFunctions (comparedPart t) =
      Table.ofEntries (operations.map fun o => (o.callName, o.functionCode s))) {name : Text} :
    (∃ c ∈ detectOperationChanges later (some t), c.kind = .removed ∧ c.callName = name) ↔
      name ∈ operations.map Operation.callName ∧ name ∉ later.map Operation.callName := by
  rw [detectOperationChanges_of_functions h]
  constructor
  · rintro ⟨c, hc, hkind, rfl⟩
    rcases List.mem_append.1 hc with hc | hc
    · obtain ⟨o, -, rfl⟩ := List.mem_map.1 hc
      cases hkind
    · obtain ⟨name, hname, rfl⟩ := List.mem_map.1 hc
      obtain ⟨hname, hlater⟩ := List.mem_filter.1 hname
      exact ⟨mem_firstOccurrences.1 hname, of_decide_eq_true hlater⟩
  · rintro ⟨hname, hlater⟩
    refine ⟨{ callName := name, kind := .removed }, List.mem_append_right _ ?_, rfl, rfl⟩
    exact List.mem_map.2 ⟨name, List.mem_filter.2 ⟨mem_firstOccurrences.2 hname, decide_eq_true hlater⟩, rfl⟩

theorem update_exportedFunctions {model : ApiModel} {result : UpdateResult} {m₁ : Machine}
    (hu : (update s directory {} : Task (StateM Machine) UpdateResult).Ends m result m')
    (hm : (loadModel s directory).Ends m model m₁)
    (ha : m'.files.Apart (aliasPaths s (directory / Path.ofText s.output) ++
      groupPaths (directory / Path.ofText s.output) model.operations))
    (hp : ∀ g ∈ model.operations, ∀ o ∈ g.2, o.IsPlain ∧ o.IsUnmarked)
    (hc : IsDotted s.requestClient) (hi : HasNoMarker s.requestImport) {g : Text × List Operation}
    (hg : g ∈ model.operations) :
    ∃ p t, m'.files.find true (functionsPath (directory / Path.ofText s.output) g.1) =
        .ok (p, some (.file (.text t))) ∧
      Source.exportedFunctions (comparedPart (unifyLineEnds t)) =
        Table.ofEntries (g.2.map fun o => (o.callName, o.functionCode s)) := by
  obtain ⟨document, m₂, given, m₃, ws, hdocument, hgiven, hwrites⟩ := ends_update hu
  obtain rfl : model = plannedModel s given document := by
    have hload : (loadModel s directory).Ends m (plannedModel s given document) m₃ :=
      ends_bind.2 ⟨document, m₂, hdocument, ends_bind.2 ⟨given, m₃, hgiven, ends_pure.2 ⟨rfl, rfl⟩⟩⟩
    exact (hm.unique hload).1
  obtain ⟨existing, hexisting⟩ := hwrites.groups_written g hg
  have hmem := hexisting _ (List.mem_cons_of_mem _ List.mem_cons_self)
  have hsource := (ends_loadAliases_keeps hgiven).2.2
  obtain ⟨p, hfind⟩ := hwrites.written.files_written.find (ha.sublist (hwrites.sublist hsource))
    (List.mem_append_right _ hmem)
  have hl : ∀ o ∈ g.2, o.IsLegible := fun o ho => (ApiModel.isBuilt hg ho).isLegible (hp g hg o ho).1
  have hpath : ∀ o ∈ g.2, '\r' ∉ o.cleanPath := fun o ho hr => ((hp g hg o ho).1.path_plain _ hr).2 rfl
  exact ⟨p, _, hfind, exportedFunctions_again hl hpath (fun o ho => (hp g hg o ho).2) hc hi existing⟩

/-- A check that follows an update, of a description that may be another one, reports in every group that both
descriptions have exactly the functions that were generated and have no operation any more. It reports nothing
about the groups that its own description does not have. -/
theorem check_reports_removed {model later : ApiModel} {result : UpdateResult} {m₁ n' : Machine}
    (hu : (update s directory {} : Task (StateM Machine) UpdateResult).Ends m result m')
    (hm : (loadModel s directory).Ends m model m₁)
    (ha : m'.files.Apart (aliasPaths s (directory / Path.ofText s.output) ++
      groupPaths (directory / Path.ofText s.output) model.operations))
    (hp : ∀ g ∈ model.operations, ∀ o ∈ g.2, o.IsPlain ∧ o.IsUnmarked)
    (hc : IsDotted s.requestClient) (hi : HasNoMarker s.requestImport)
    (hn : (loadModel s directory).Ends n later n')
    (hkept : ∀ g ∈ model.operations,
      n'.files.find true (functionsPath (directory / Path.ofText s.output) g.1) =
        m'.files.find true (functionsPath (directory / Path.ofText s.output) g.1))
    (hr : ∀ path ∈ groupPaths (directory / Path.ofText s.output) later.operations, n'.files.CanRead path)
    (hw : n'.files.CanWrite (directory.child changelogName)) (generatedAt : Text) :
    ∃ r n'', (check s directory generatedAt : Task (StateM Machine) CheckResult).Ends n r n'' ∧
      (∀ g ∈ model.operations, ∀ h ∈ later.operations, h.1 = g.1 → ∀ name, r.report.Removes g.1 name ↔
        name ∈ g.2.map Operation.callName ∧ name ∉ h.2.map Operation.callName) ∧
      ∀ c ∈ r.report.groups, c.group ∈ later.operations.keys := by
  obtain ⟨r, n'', groups, hcheck, hreport, hall, hfrom⟩ := ends_check hn hr hw generatedAt
  refine ⟨r, n'', hcheck, ?_, ?_⟩
  · intro g hg h hh heq name
    obtain ⟨p, t, hfind, hexported⟩ := update_exportedFunctions hu hm ha hp hc hi hg
    have hread := ends_readOutput?_of_find ((hkept g hg).trans hfind)
    have hfound {c : GroupChanges} (hc : IsFoundIn (directory / Path.ofText s.output) n' h c) :
        (∃ change ∈ c.operations, change.kind = .removed ∧ change.callName = name) ↔
          name ∈ g.2.map Operation.callName ∧ name ∉ h.2.map Operation.callName := by
      rw [hc.operations_eq _ (heq ▸ hread)]
      exact removed_iff hexported
    constructor
    · rintro ⟨c, hc, hgroup, hremoved⟩
      rw [hreport] at hc
      obtain ⟨h', hh', hc'⟩ := hfrom c (List.mem_filter.1 hc).1
      obtain rfl := eq_of_loadModel hn hh' hh ((hc'.group_eq.symm.trans hgroup).trans heq.symm)
      exact (hfound hc').1 hremoved
    · intro hname
      obtain ⟨c, hc, hc'⟩ := hall h hh
      obtain ⟨change, hchange, hremoved⟩ := (hfound hc').2 hname
      refine ⟨c, ?_, hc'.group_eq.trans heq, change, hchange, hremoved⟩
      rw [hreport]
      refine List.mem_filter.2 ⟨hc, ?_⟩
      simp [GroupChanges.isChange, List.ne_nil_of_mem hchange]
  · intro c hc
    rw [hreport] at hc
    obtain ⟨h, hh, hc'⟩ := hfrom c (List.mem_filter.1 hc).1
    exact List.mem_map.2 ⟨h, hh, hc'.group_eq.symm⟩

/-! ### A project whose description is exchanged -/

private def revisedTree (description functions types : Text) : FileTree where
  here := []
  entries :=
    [(["swagger.json"], .file (.text description)), (["src"], .directory), (["src", "api"], .directory),
      (["src", "api", "pets"], .directory), (["src", "api", "pets", "index.ts"], .file (.text functions)),
      (["src", "api", "tag-mapping.json"], .file (.text petsAliasText)),
      (["src", "api", "pets", "types.ts"], .file (.text types))]

/-- The project after an update, with another description. -/
private def revised (description : Text) : Machine :=
  { petsUpdated with
    files := revisedTree description petsFunctions (renderTypesFile {} [] [petsOperation "pets"]) }

/-- The description of another operation of the group. -/
private def laterText : Text := "\x7b\"paths\":\x7b\"/pets\":\x7b\"post\":\x7b\"tags\":[\"pets\"]\x7d\x7d\x7d\x7d"

private def laterDocument : Fields :=
  let operation : Value := .object [(.text "tags", .list [.scalar (.text "pets")])]
  [(.text "paths", .object [(.text "/pets", .object [(.text "post", operation)])])]

private def laterOperation : Operation :=
  { path := "/pets", cleanPath := "/pets", method := "post", group := "pets", callName := "postPets" }

private def readAliases : Aliases := { mapping := [("pets", "pets")], source := .file }

private def laterModel : ApiModel := plannedModel {} readAliases laterDocument

private theorem laterModel_operations : laterModel.operations = [("pets".toList, [laterOperation])] := by cbv

private theorem find_revised (description functions types : Text) :
    let t := revisedTree description functions types
    t.find true (petsDirectory / Path.ofText "./swagger.json") =
        .ok (["swagger.json".toList], some (.file (.text description))) ∧
      t.find true (petsOutput.child aliasFileName) =
        .ok (["src".toList, "api".toList, aliasFileName], some (.file (.text petsAliasText))) ∧
      t.find true (functionsPath petsOutput "pets") =
        .ok (["src".toList, "api".toList, "pets".toList, functionsFileName], some (.file (.text functions))) ∧
      t.find true (typesPath petsOutput "pets") =
        .ok (["src".toList, "api".toList, "pets".toList, typesFileName], some (.file (.text types))) ∧
      t.find true (petsDirectory.child changelogName) = .ok ([changelogName], none) := by
  refine ⟨rfl, rfl, rfl, rfl, rfl⟩

private theorem loadDescription_revised {description : Text} {document : Fields} (hr : '\r' ∉ description)
    (hp : parseDescription (petsDirectory / Path.ofText "./swagger.json").toText description = .ok document) :
    (loadDescription petsDirectory "./swagger.json" : Task (StateM Machine) Fields).Ends (revised description)
      document (revised description) :=
  ends_loadDescription_of_find (by decide) (find_revised description _ _).1 hr hp

private theorem loadAliases_revised (description : Text) :
    (loadAliases petsOutput [] : Task (StateM Machine) Aliases).Ends (revised description) readAliases
      (revised description) := by
  have hfind := (find_revised description petsFunctions (renderTypesFile {} [] [petsOperation "pets"])).2.1
  have hread : (readAliasFile petsOutput : Task (StateM Machine) (Table Text)).Ends (revised description)
      petsAliases.mapping (revised description) := ends_readAliasFile_written (by decide) hfind
  exact ends_loadAliases_nil.2 ⟨_, hread, rfl⟩

private theorem canWrite_revised (description : Text) :
    (revised description).files.CanWrite (petsDirectory.child changelogName) :=
  ⟨_, .inl (find_revised description _ _).2.2.2.2⟩

/-- The update made a function for an operation that is replaced by another one. -/
theorem check_reports_removed_of_pets :
    ∃ result r n', (update {} petsDirectory {} : Task (StateM Machine) UpdateResult).Ends pets result petsUpdated ∧
      (check {} petsDirectory "2026-01-01" : Task (StateM Machine) CheckResult).Ends (revised laterText) r n' ∧
      r.report.Removes "pets" "getPets" := by
  obtain ⟨result, hupdate⟩ := update_pets
  have hparse : parseDescription (petsDirectory / Path.ofText "./swagger.json").toText laterText =
      .ok laterDocument := by cbv
  have hload : (loadModel {} petsDirectory).Ends (revised laterText) laterModel (revised laterText) :=
    ends_bind.2 ⟨_, _, loadDescription_revised (by decide) hparse,
      ends_bind.2 ⟨_, _, loadAliases_revised laterText, ends_pure.2 ⟨rfl, rfl⟩⟩⟩
  have hlinks : petsUpdated.files.HasNoLinks := .of_entries (by simp [petsUpdated, petsTree])
  have hapart : petsUpdated.files.Apart (aliasPaths {} petsOutput ++ groupPaths petsOutput petsModel.operations) := by
    apply hlinks.apart
    rw [petsModel_operations]
    decide +kernel
  have hplain : ∀ g ∈ petsModel.operations, ∀ o ∈ g.2, o.IsPlain ∧ o.IsUnmarked := by
    rw [petsModel_operations]
    intro g hg o ho
    rw [List.mem_singleton.1 hg] at ho
    exact ⟨isPlainGroup_pets.plain o ho, isPlainGroup_pets.unmarked o ho⟩
  have hclient : IsDotted ({} : Settings).requestClient := by
    unfold IsDotted
    decide
  have hkept : ∀ g ∈ petsModel.operations, (revised laterText).files.find true (functionsPath petsOutput g.1) =
      petsUpdated.files.find true (functionsPath petsOutput g.1) := by
    rw [petsModel_operations]
    intro g hg
    rw [List.mem_singleton.1 hg]
    exact (find_revised laterText _ _).2.2.1.trans (find_revised petsText _ _).2.2.1.symm
  have hread : ∀ path ∈ groupPaths petsOutput laterModel.operations, (revised laterText).files.CanRead path := by
    have htext {path : Path} {p : Place} {t : Text}
        (h : (revised laterText).files.find true path = .ok (p, some (.file (.text t)))) :
        (revised laterText).files.CanRead path :=
      .inr ⟨t, isFile_eq_true_iff.2 ⟨p, _, h⟩, read_eq_ok_iff.2 ⟨p, h⟩⟩
    rw [laterModel_operations]
    intro path hpath
    simp only [groupPaths, List.flatMap_cons, List.flatMap_nil, List.append_nil, List.mem_cons, List.not_mem_nil,
      or_false] at hpath
    rcases hpath with rfl | rfl
    · exact htext (find_revised laterText _ _).2.2.2.1
    · exact htext (find_revised laterText _ _).2.2.1
  obtain ⟨r, n', hcheck, hremoved, -⟩ := check_reports_removed hupdate loadModel_pets hapart hplain hclient
    (.of_notMem (c := ' ') (by decide) (by decide)) hload hkept hread (canWrite_revised laterText) "2026-01-01"
  have hmodel : ("pets".toList, [petsOperation "pets"]) ∈ petsModel.operations := by
    rw [petsModel_operations]
    exact List.mem_singleton_self _
  have hlater : ("pets".toList, [laterOperation]) ∈ laterModel.operations := by
    rw [laterModel_operations]
    exact List.mem_singleton_self _
  exact ⟨result, r, n', hupdate, hcheck, (hremoved _ hmodel _ hlater rfl "getPets").2 (by decide)⟩

/-- A check says nothing about a group that lost all its operations, and nothing about a function whose path has a
quote in it. -/
theorem check_misses_removed :
    (∃ result later r n',
      (update {} petsDirectory {} : Task (StateM Machine) UpdateResult).Ends pets result petsUpdated ∧
      (loadModel {} petsDirectory).Ends pets petsModel pets ∧
      petsModel.operations = [("pets".toList, [petsOperation "pets"])] ∧
      (loadModel {} petsDirectory).Ends (revised "\x7b\x7d") later (revised "\x7b\x7d") ∧ later.operations = [] ∧
      (check {} petsDirectory "2026-01-01" : Task (StateM Machine) CheckResult).Ends (revised "\x7b\x7d") r n' ∧
      ¬r.report.Removes "pets" "getPets") ∧
    let quoted : Operation := { path := "/it's", cleanPath := "/it's", callName := "getIts" }
    let other : Operation := { path := "/b", cleanPath := "/b", callName := "getB" }
    detectOperationChanges [other] (some (renderFunctionsFile {} [quoted, other])) = [] := by
  refine ⟨?_, by decide +kernel⟩
  obtain ⟨result, hupdate⟩ := update_pets
  have hparse : parseDescription (petsDirectory / Path.ofText "./swagger.json").toText "\x7b\x7d" = .ok [] := by cbv
  have hload : (loadModel {} petsDirectory).Ends (revised "\x7b\x7d") (plannedModel {} readAliases [])
      (revised "\x7b\x7d") :=
    ends_bind.2 ⟨_, _, loadDescription_revised (by decide) hparse,
      ends_bind.2 ⟨_, _, loadAliases_revised _, ends_pure.2 ⟨rfl, rfl⟩⟩⟩
  have hnone : (plannedModel {} readAliases []).operations = [] :=
    ApiModel.operations_eq_nil (by cbv) _ _
  have hread : ∀ path ∈ groupPaths petsOutput (plannedModel {} readAliases []).operations,
      (revised "\x7b\x7d").files.CanRead path := by
    rw [hnone]
    intro path hpath
    cases hpath
  obtain ⟨r, n', groups, hcheck, hreport, -, hfrom⟩ :=
    ends_check hload hread (canWrite_revised _) "2026-01-01"
  refine ⟨result, _, r, n', hupdate, loadModel_pets, petsModel_operations, hload, hnone, hcheck, ?_⟩
  rintro ⟨c, hc, -⟩
  rw [hreport] at hc
  obtain ⟨g, hg, -⟩ := hfrom c (List.mem_filter.1 hc).1
  rw [hnone] at hg
  cases hg

end ClientGen
