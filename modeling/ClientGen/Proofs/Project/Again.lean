import ClientGen.Proofs.Project.Check
import ClientGen.Proofs.Project.Regeneration
/-!
# An update after an update

A second update of the same description finds all that it needs where the first one left it, and leaves every file
as it is: the texts of the types are written again, and the regions of the functions are exchanged for themselves.
-/

namespace ClientGen

open Text ClientGen.Task FileTree

variable {s : Settings} {output directory : Path} {types : List NamedType} {m m' : Machine}

/-! ## Files that were generated -/

/-- The files of groups as an update leaves them. -/
structure IsGenerated (output : Path) (groups : List (Text × List Operation)) (t : FileTree) : Prop where
  types_text : ∀ g ∈ groups, ∃ p u, t.find true (typesPath output g.1) = .ok (p, some (.file (.text u)))
  functions_usable : ∀ g ∈ groups, ∃ q v,
    t.find true (functionsPath output g.1) = .ok (q, some (.file (.text v))) ∧ (MarkedFile.ofText? v).isSome = true
  apart : ∀ g ∈ groups, ∀ p, t.LeadsAt (typesPath output g.1) p →
    ∀ h ∈ groups, ¬t.LeadsAt (functionsPath output h.1) p

variable {groups : List (Text × List Operation)}

/-- A text that is written keeps the files of the groups as they are asked for, unless it takes the markers out of a
functions file. -/
theorem IsGenerated.write {t t' : FileTree} {p : Place} {u : Text} (h : IsGenerated output groups t) (hl : Like t t')
    (ht : ∀ q, t'.textAt? q = if q = p then some u else t.textAt? q)
    (hu : (∀ g ∈ groups, ¬t.LeadsAt (functionsPath output g.1) p) ∨ (MarkedFile.ofText? u).isSome = true) :
    IsGenerated output groups t' where
  types_text g hg := by
    obtain ⟨q, v, hf⟩ := h.types_text g hg
    obtain ⟨v', hf'⟩ := hl.find_text hf
    exact ⟨q, v', hf'⟩
  functions_usable g hg := by
    obtain ⟨q, v, hf, hv⟩ := h.functions_usable g hg
    obtain ⟨v', hf'⟩ := hl.find_text hf
    refine ⟨q, v', hf', ?_⟩
    have htext := ht q
    rw [textAt?_of_find hf', textAt?_of_find hf] at htext
    by_cases hq : q = p
    · rw [if_pos hq] at htext
      rcases hu with hapart | hu
      · exact absurd ⟨_, hq ▸ hf⟩ (hapart g hg)
      · rw [Option.some.inj htext]
        exact hu
    · rw [if_neg hq] at htext
      rw [Option.some.inj htext]
      exact hv
  apart g hg q hq k hk := by
    rw [hl.leadsAt_iff] at hq ⊢
    exact h.apart g hg q hq k hk

/-- A group is generated over its files: its functions are merged, and the trees are alike. -/
theorem generateGroup_again (types : List NamedType) (h : IsGenerated output groups m.files) {g : Text × List Operation} (hg : g ∈ groups)
    (hu : IsUsable (renderFunctionsFile s g.2)) :
    ∃ m', (generateGroup s output types g : Task (StateM Machine) GroupResult).Ends m
        ⟨g.1, .merged, g.2.length, (groupTypes g.2 types).length⟩ m' ∧
      Like m.files m'.files ∧ IsGenerated output groups m'.files := by
  obtain ⟨p, u, htypes⟩ := h.types_text g hg
  obtain ⟨d, hdirectory⟩ := find_directory isFileName_typesFileName htypes
  -- the file of types
  obtain ⟨t, hw, hlike, hfind, htexts⟩ := write_of_text htypes (renderTypesFile s (groupTypes g.2 types) g.2)
  have hgenerated : IsGenerated output groups t :=
    h.write hlike htexts (.inl fun k hk => h.apart g hg p ⟨_, htypes⟩ k hk)
  -- the file of functions
  obtain ⟨q, v, hfunctions, hv⟩ := hgenerated.functions_usable g hg
  obtain ⟨f, hf⟩ := Option.isSome_iff_exists.1 hv
  obtain ⟨r, hr, -⟩ := hu
  have hread := MarkedFile.ofText?_unifyLineEnds hf
  have hmerge := mergeFunctionsFile_of_usable hread hr
  have husable := ofText?_mergeFunctionsFile hread hr
  obtain ⟨t', hw', hlike', hfind', htexts'⟩ := write_of_text hfunctions
    (mergeFunctionsFile (some (unifyLineEnds v)) (renderFunctionsFile s g.2)).content
  have hgenerated' : IsGenerated output groups t' := hgenerated.write hlike' htexts' (.inr (by rw [husable]; rfl))
  refine ⟨{ m with files := t' }, ?_, hlike.trans hlike', hgenerated'⟩
  have hmade : (makeOutput (output.child g.1) : Task (StateM Machine) Unit).Ends m () m :=
    ends_makeOutput.2 ⟨m.files, makeDirectories_of_directory hdirectory, rfl⟩
  refine ends_bind.2 ⟨.merged, { m with files := t' }, ?_, ends_pure.2 ⟨rfl, rfl⟩⟩
  refine ends_bind.2 ⟨(), m, hmade, ends_bind.2 ⟨(), { m with files := t }, ends_writeText.2 ⟨t, hw, rfl⟩, ?_⟩⟩
  refine ends_bind.2 ⟨_, _, ends_readOutput?_of_find hfunctions, ?_⟩
  have hnot : ¬(mergeFunctionsFile (some (unifyLineEnds v)) (renderFunctionsFile s g.2)).action = .replaced := by
    rw [hmerge]
    simp
  dsimp only
  rw [if_neg hnot]
  refine ends_bind.2 ⟨(), _, ends_writeText.2 ⟨t', hw', rfl⟩, ends_pure.2 ⟨?_, rfl⟩⟩
  rw [hmerge]

/-- What is said of a group whose functions were merged. -/
def mergedResult (types : List NamedType) (g : Text × List Operation) : GroupResult :=
  ⟨g.1, .merged, g.2.length, (groupTypes g.2 types).length⟩

theorem generateGroups_again (types : List NamedType) (h : IsGenerated output groups m.files)
    (hu : ∀ g ∈ groups, IsUsable (renderFunctionsFile s g.2)) {gs : List (Text × List Operation)}
    (hs : ∀ g ∈ gs, g ∈ groups) :
    ∃ m', (gs.mapM (generateGroup s output types) : Task (StateM Machine) _).Ends m
        (gs.map (mergedResult types)) m' ∧ Like m.files m'.files := by
  induction gs generalizing m with
  | nil => exact ⟨m, ends_mapM_nil.2 ⟨rfl, rfl⟩, .refl _⟩
  | cons g gs ih =>
    obtain ⟨m₁, hg, hlike, hgenerated⟩ := generateGroup_again types h (hs g List.mem_cons_self)
      (hu g (hs g List.mem_cons_self))
    obtain ⟨m', hrest, hlike'⟩ := ih hgenerated fun g hg => hs g (List.mem_cons_of_mem _ hg)
    exact ⟨m', ends_mapM_cons.2 ⟨_, m₁, _, hg, hrest, rfl⟩, hlike.trans hlike'⟩

theorem generateGroups_results {rs : List GroupResult}
    (h : (groups.mapM (generateGroup s output types) : Task (StateM Machine) _).Ends m rs m') :
    rs.map (fun r => { r with action := .merged }) = groups.map (mergedResult types) := by
  induction groups generalizing m rs with
  | nil =>
    obtain ⟨rfl, -⟩ := ends_mapM_nil.1 h
    rfl
  | cons g groups ih =>
    obtain ⟨r, m₁, rs', hg, hrest, rfl⟩ := ends_mapM_cons.1 h
    obtain ⟨action, m₂, -, hr⟩ := ends_bind.1 hg
    obtain ⟨rfl, -⟩ := ends_pure.1 hr
    rw [List.map_cons, List.map_cons, ih hrest]
    rfl

/-- Groups that were generated, each usable and its types and functions apart, are as a further update asks for. -/
theorem isGenerated_of_ends {rs : List GroupResult}
    (h : (groups.mapM (generateGroup s output types) : Task (StateM Machine) _).Ends m rs m')
    (hu : ∀ g ∈ groups, IsUsable (renderFunctionsFile s g.2))
    (ha : ∀ g ∈ groups, ∀ p, m'.files.LeadsAt (typesPath output g.1) p →
      ∀ k ∈ groups, ¬m'.files.LeadsAt (functionsPath output k.1) p) :
    IsGenerated output groups m'.files where
  types_text g hg := by
    obtain ⟨⟨p, hp⟩, -⟩ := fileAt_generateGroups h g hg
    have htext := textAt?_generateGroups h (t := m'.files) (.refl _) rfl p
    obtain ⟨u, hu⟩ := Option.isSome_iff_exists.1
      (foldl_groupText_isSome (s := s) types (u := m.files.textAt? p) (.inr ⟨g, hg, hp.leadsAt⟩))
    exact ⟨p, u, hp.find_text (htext.trans hu)⟩
  functions_usable g hg := by
    obtain ⟨-, q, hq⟩ := fileAt_generateGroups h g hg
    have htypes : ∀ k ∈ groups, ¬m'.files.LeadsAt (typesPath output k.1) q :=
      fun k hk hl => ha k hk q hl g hg hq.leadsAt
    have htext := textAt?_generateGroups h (t := m'.files) (.refl _) rfl q
    obtain ⟨v, hv, hsome⟩ := foldl_groupText_usable types (u := m.files.textAt? q) hu htypes
      ⟨g, hg, hq.leadsAt⟩
    exact ⟨q, v, hq.find_text (htext.trans hv), hsome⟩
  apart := ha

/-- Groups that were generated are generated again over their own files: all are merged, and no file changes. -/
theorem generateGroups_twice {n : Machine} {rs : List GroupResult}
    (h : (groups.mapM (generateGroup s output types) : Task (StateM Machine) _).Ends m rs m')
    (hu : ∀ g ∈ groups, IsUsable (renderFunctionsFile s g.2))
    (ha : ∀ g ∈ groups, ∀ p, m'.files.LeadsAt (typesPath output g.1) p →
      ∀ k ∈ groups, ¬m'.files.LeadsAt (functionsPath output k.1) p)
    (hr : ∀ g ∈ groups, ∀ q v, m'.files.find true (functionsPath output g.1) = .ok (q, some (.file (.text v))) →
      ∀ f ∈ MarkedFile.ofText? v, '\r' ∉ f.after)
    (hn : n.files = m'.files) :
    ∃ m'', (groups.mapM (generateGroup s output types) : Task (StateM Machine) _).Ends n
        (rs.map fun r => { r with action := .merged }) m'' ∧ ∀ p, m''.files.get? p = m'.files.get? p := by
  have hgenerated := isGenerated_of_ends h hu ha
  rw [← hn] at hgenerated
  obtain ⟨m'', hagain, hlike⟩ := generateGroups_again types hgenerated hu fun g hg => hg
  rw [hn] at hlike
  refine ⟨m'', generateGroups_results h ▸ hagain, hlike.get?_eq fun x => ?_⟩
  have hbefore := textAt?_generateGroups h (t := m'.files) (.refl _) rfl x
  have hbehind := textAt?_generateGroups hagain (t := m'.files) hlike.symm.kept hlike.symm.here_eq x
  rw [hbehind, hn, hbefore]
  apply foldl_groupText_again hu fun g hg hl k hk => ha g hg x hl k hk
  rintro ⟨g, hg, hl⟩ v f hv hf
  obtain ⟨-, q, hq⟩ := fileAt_generateGroups h g hg
  obtain rfl := hq.unique hl
  exact hr g hg _ v (hq.find_text (hbefore.trans hv)) f hf

/-! ## The whole update -/

/-- The groups that an update generates: none if only the file of aliases is made. -/
def generatedGroups (initOnly : Bool) (model : ApiModel) : List (Text × List Operation) :=
  if initOnly then [] else model.operations

theorem ends_update_iff {initOnly : Bool} {result : UpdateResult} :
    (update s directory { initOnly } : Task (StateM Machine) UpdateResult).Ends m result m' ↔
      ∃ document m₁ given m₂ m₃ groups,
        (loadDescription directory s.input : Task (StateM Machine) Fields).Ends m document m₁ ∧
        (loadAliases (directory / Path.ofText s.output) s.tagMapping :
          Task (StateM Machine) Aliases).Ends m₁ given m₂ ∧
        (saveAliases (directory / Path.ofText s.output) (given.register (allTags document)) :
          Task (StateM Machine) Unit).Ends m₂ () m₃ ∧
        ((generatedGroups initOnly (plannedModel s given document)).mapM
          (generateGroup s (directory / Path.ofText s.output) (plannedModel s given document).allTypes) :
            Task (StateM Machine) _).Ends m₃ groups m' ∧
        result =
          { output := directory / Path.ofText s.output
            newLabels := given.newlyDiscovered (given.register (allTags document))
            aliasSource := (given.register (allTags document)).source
            groups
            warnings := if initOnly then [] else (plannedModel s given document).warnings } := by
  unfold update
  constructor
  · intro h
    obtain ⟨document, m₁, hdocument, h⟩ := ends_bind.1 h
    obtain ⟨given, m₂, hgiven, h⟩ := ends_bind.1 h
    obtain ⟨_, m₃, hsaved, h⟩ := ends_bind.1 h
    cases initOnly with
    | true =>
      obtain ⟨rfl, rfl⟩ := ends_pure.1 h
      exact ⟨document, m₁, given, m₂, m₃, [], hdocument, hgiven, hsaved, ends_mapM_nil.2 ⟨rfl, rfl⟩, rfl⟩
    | false =>
      obtain ⟨groups, m₄, hgroups, h⟩ := ends_bind.1 h
      obtain ⟨rfl, rfl⟩ := ends_pure.1 h
      exact ⟨document, m₁, given, m₂, m₃, groups, hdocument, hgiven, hsaved, hgroups, rfl⟩
  · rintro ⟨document, m₁, given, m₂, m₃, groups, hdocument, hgiven, hsaved, hgroups, rfl⟩
    refine ends_bind.2 ⟨document, m₁, hdocument, ends_bind.2 ⟨given, m₂, hgiven, ends_bind.2 ⟨(), m₃, hsaved, ?_⟩⟩⟩
    cases initOnly with
    | true =>
      obtain ⟨rfl, rfl⟩ := ends_mapM_nil.1 hgroups
      exact ends_pure.2 ⟨rfl, rfl⟩
    | false => exact ends_bind.2 ⟨groups, m', hgroups, ends_pure.2 ⟨rfl, rfl⟩⟩

/-- The places that an update reads or writes do not get in each other's way: nothing is generated over the
description or over the file of aliases, and no group has its types where a group has its functions. -/
structure KeepsApart (s : Settings) (directory : Path) (groups : List (Text × List Operation)) (t : FileTree) :
    Prop where
  input : isRemote s.input = false → ∀ q ∈ aliasPaths s (directory / Path.ofText s.output) ++
    groupPaths (directory / Path.ofText s.output) groups,
      ∀ p, t.LeadsAt (directory / Path.ofText s.input) p → ¬t.LeadsAt q p
  aliases : ∀ a ∈ aliasPaths s (directory / Path.ofText s.output),
    ∀ q ∈ groupPaths (directory / Path.ofText s.output) groups, ∀ p, t.LeadsAt a p → ¬t.LeadsAt q p
  groups : ∀ g ∈ groups, ∀ p, t.LeadsAt (typesPath (directory / Path.ofText s.output) g.1) p →
    ∀ h ∈ groups, ¬t.LeadsAt (functionsPath (directory / Path.ofText s.output) h.1) p

/-- A second update ends, leaves every file as it is, merges every group, and discovers no category unless the aliases
are those of the settings. -/
theorem update_again {initOnly : Bool} {result : UpdateResult} {model : ApiModel} {m₁ : Machine}
    (hu : (update s directory { initOnly } : Task (StateM Machine) UpdateResult).Ends m result m')
    (hm : (loadModel s directory).Ends m model m₁)
    (ha : KeepsApart s directory (generatedGroups initOnly model) m'.files)
    (hc : '\r' ∉ s.requestClient ∧ HasNoMarker s.requestClient)
    (hi : '\r' ∉ s.requestImport ∧ HasNoMarker s.requestImport)
    (hr : ∀ g ∈ generatedGroups initOnly model, ∀ q v,
      m'.files.find true (functionsPath (directory / Path.ofText s.output) g.1) = .ok (q, some (.file (.text v))) →
        ∀ f ∈ MarkedFile.ofText? v, '\r' ∉ f.after) :
    ∃ again m'', (update s directory { initOnly } : Task (StateM Machine) UpdateResult).Ends m' again m'' ∧
      (∀ p, m''.files.get? p = m'.files.get? p) ∧
      again.groups = result.groups.map (fun r => { r with action := .merged }) ∧
      (s.tagMapping = [] → again.newLabels = []) := by
  obtain ⟨document, m₂, given, m₃, m₄, rs, hdocument, hgiven, hsaved, hgroups, rfl⟩ := ends_update_iff.1 hu
  obtain rfl : model = plannedModel s given document := by
    have hload : (loadModel s directory).Ends m (plannedModel s given document) m₃ :=
      ends_bind.2 ⟨document, m₂, hdocument, ends_bind.2 ⟨given, m₃, hgiven, ends_pure.2 ⟨rfl, rfl⟩⟩⟩
    exact (hm.unique hload).1
  -- what the first update wrote
  obtain ⟨hfirst, hunchanged⟩ := ends_saveAliases hsaved
  obtain ⟨ws, hws, hpaths, -⟩ := ends_generateGroups hgroups
  have hwritten := hfirst.append hws
  obtain ⟨hfiles, hreplies, hsource⟩ := ends_loadAliases_keeps hgiven
  obtain ⟨rfl, hagain⟩ := ends_loadDescription_again hdocument
  -- the description and the aliases are those of the first update
  have hdocument' := hagain m' (hwritten.replies_eq.trans hreplies) fun hremote p c hf => by
    rw [← hfiles] at hf
    refine hwritten.files_written.grows.find_file hf fun q hq => ?_
    have hinput := hwritten.files_written.grows.leadsAt ⟨_, hf⟩
    rw [List.map_append, hpaths] at hq
    rcases List.mem_append.1 hq with hq | hq
    · exact ha.input hremote q (List.mem_append_left _ ((aliasWrites_sublist hsource _).subset hq)) p hinput
    · exact ha.input hremote q (List.mem_append_right _ hq) p hinput
  obtain ⟨given', us, hgiven', hmapping, hregistered⟩ := ends_loadAliases_after hgiven hwritten (by
    intro hd ht
    obtain rfl := hunchanged hd
    have hnone := ApiModel.operations_eq_nil ht s (given.register (allTags document))
    have hempty : generatedGroups initOnly (plannedModel s given document) = [] := by
      cases initOnly with
      | true => rfl
      | false => exact hnone
    rw [hempty] at hgroups
    exact (ends_mapM_nil.1 hgroups).2.symm) fun a hmem q hq => ha.aliases a hmem q (hpaths ▸ hq)
  have hmodel : plannedModel s given' document = plannedModel s given document :=
    ApiModel.ofDocument_congr hmapping s document
  have hnothing : (given'.register (allTags document)).source = .config ∨
      (given'.register (allTags document)).discovered = [] := by
    by_cases hconfigured : s.tagMapping = []
    · obtain ⟨hsame, hdiscovered⟩ := hregistered hconfigured
      rw [hsame]
      exact .inr hdiscovered
    · exact .inl (Aliases.source_register.trans ((ends_loadAliases_keeps hgiven').2.2 hconfigured))
  have husable : ∀ g ∈ generatedGroups initOnly (plannedModel s given document),
      IsUsable (renderFunctionsFile s g.2) := fun g _ => isUsable_renderFunctionsFile hc hi g.2
  obtain ⟨m'', hgroups', hsame⟩ := generateGroups_twice (n := m'.warned us) hgroups husable ha.groups hr rfl
  refine ⟨_, m'', ends_update_iff.2 ⟨document, m', given', m'.warned us, m'.warned us, _, hdocument', hgiven',
    ends_saveAliases_nothing hnothing, hmodel ▸ hgroups', rfl⟩, hsame, rfl, fun hconfigured => ?_⟩
  obtain ⟨hsame, hdiscovered⟩ := hregistered hconfigured
  simp [Aliases.newlyDiscovered, hsame, hdiscovered]

/-- Without links, the files are in each other's way only where the description is one of those that are generated. -/
theorem keepsApart_of_noLinks {t : FileTree} (hl : t.HasNoLinks)
    (hin : isRemote s.input = false → (directory / Path.ofText s.input).placeFrom t.here ∉
      (aliasPaths s (directory / Path.ofText s.output) ++
        groupPaths (directory / Path.ofText s.output) groups).map (Path.placeFrom t.here)) :
    KeepsApart s directory groups t := by
  refine ⟨fun hremote q hq p hp hqp => ?_, fun a hmem q hq p hap hqp => ?_, fun g _ p hp h _ hq => ?_⟩
  · refine hin hremote (List.mem_map.2 ⟨q, hq, ?_⟩)
    rw [← hp.eq_placeFrom hl, ← hqp.eq_placeFrom hl]
  · unfold aliasPaths at hmem
    split at hmem
    · obtain rfl := List.mem_singleton.1 hmem
      obtain ⟨g, -, hq⟩ := List.mem_flatMap.1 hq
      simp only [List.mem_cons, List.not_mem_nil, or_false] at hq
      have hname := hap.getLast?_child hl isFileName_aliasFileName
      rcases hq with rfl | rfl
      · exact absurd (hname.symm.trans (hqp.getLast?_child hl isFileName_typesFileName)) (by decide)
      · exact absurd (hname.symm.trans (hqp.getLast?_child hl isFileName_functionsFileName)) (by decide)
    · cases hmem
  · have htypes := hp.getLast?_child hl isFileName_typesFileName
    exact absurd (htypes.symm.trans (hq.getLast?_child hl isFileName_functionsFileName)) (by decide)

/-- The file of functions that was written by hand is overwritten, and a second update changes nothing. -/
theorem update_again_of_pets :
    ∃ result again m', (update {} petsDirectory {} : Task (StateM Machine) UpdateResult).Ends pets result petsUpdated ∧
      (update {} petsDirectory {} : Task (StateM Machine) UpdateResult).Ends petsUpdated again m' ∧
      (∀ p, m'.files.get? p = petsUpdated.files.get? p) ∧ again.newLabels = [] := by
  obtain ⟨result, hupdate⟩ := update_pets
  have hlinks : petsUpdated.files.HasNoLinks := .of_entries (by simp [petsUpdated, petsTree])
  have hapart : KeepsApart {} petsDirectory (generatedGroups false petsModel) petsUpdated.files := by
    apply keepsApart_of_noLinks hlinks
    intro _
    rw [generatedGroups, petsModel_operations]
    decide +kernel
  have hafter : ∀ g ∈ generatedGroups false petsModel, ∀ q v,
      petsUpdated.files.find true (functionsPath petsOutput g.1) = .ok (q, some (.file (.text v))) →
        ∀ f ∈ MarkedFile.ofText? v, '\r' ∉ f.after := by
    rw [generatedGroups, petsModel_operations]
    intro g hg q v hfind f hf hr
    rw [List.mem_singleton.1 hg] at hfind
    have hpets : petsUpdated.files.find true (functionsPath petsOutput "pets") =
        .ok (["src".toList, "api".toList, "pets".toList, functionsFileName], some (.file (.text petsFunctions))) :=
      rfl
    rw [hpets] at hfind
    cases hfind
    have hnone : '\r' ∉ petsFunctions := by decide +kernel
    refine hnone ?_
    rw [(MarkedFile.ofText?_eq_some_iff.1 hf).1]
    simp [MarkedFile.toText, hr]
  obtain ⟨again, m', hagain, hfiles, -, hlabels⟩ := update_again hupdate loadModel_pets hapart
    ⟨by decide, .of_notMem (c := ' ') (by decide) (by decide)⟩
    ⟨by decide, .of_notMem (c := ' ') (by decide) (by decide)⟩ hafter
  exact ⟨result, again, m', hupdate, hagain, hfiles, hlabels rfl⟩

/-! ### Projects in which a second update writes something else -/

/-- The project of linked files after two updates. The first one wrote types into the file of aliases. -/
private def linkedAgain : Machine where
  files := linkedTree petsAliasText
    [(["src", "api", "animals", "index.ts"], .file (.text linkedFunctions)),
      (["src", "api", "pets"], .directory),
      (["src", "api", "pets", "types.ts"], .file (.text (renderTypesFile {} [] [petsOperation "pets"]))),
      (["src", "api", "pets", "index.ts"], .file (.text
        (mergeFunctionsFile none (renderFunctionsFile {} [petsOperation "pets"])).content))]
  warnings := linkedWarned.warnings

private def linkedSaved : Machine where
  files := linkedTree petsAliasText [(["src", "api", "animals", "index.ts"], .file (.text linkedFunctions))]
  warnings := linkedWarned.warnings

set_option maxRecDepth 4000 in
private theorem update_linkedUpdated :
    ∃ again, (update {} petsDirectory {} : Task (StateM Machine) UpdateResult).Ends linkedUpdated again linkedAgain ∧
      again.newLabels = ["pets".toList] := by
  have haliases : (loadAliases petsOutput [] : Task (StateM Machine) Aliases).Ends linkedUpdated {}
      linkedWarned := by
    unfold Ends
    cbv
  have hsaved : (saveAliases petsOutput petsAliases : Task (StateM Machine) Unit).Ends linkedWarned ()
      linkedSaved := by
    unfold Ends
    cbv
  have hgroup : (generateGroup {} petsOutput [] ("pets", [petsOperation "pets"]) :
      Task (StateM Machine) GroupResult).Ends linkedSaved ⟨"pets", .created, 1, 0⟩ linkedAgain := by
    unfold Ends
    cbv
  rw [← register_pets] at hsaved
  obtain ⟨again, hagain, -, hlabels⟩ := update_of_group (loadDescription_pets rfl) haliases hsaved
    petsModel_operations petsModel_allTypes hgroup
  rw [register_pets] at hlabels
  exact ⟨again, hagain, hlabels⟩

/-- A project in which the functions of a group have their place where its types are. -/
private def joinedTree (rest : List (Place × Entry)) : FileTree :=
  petsTree ((["src", "api", "pets"], .directory) :: (["src", "api", "pets", "index.ts"], .link "types.ts") :: rest)

private def joined : Machine where
  files := joinedTree []

private def joinedSaved : Machine where
  files := joinedTree [(["src", "api", "tag-mapping.json"], .file (.text petsAliasText))]

private def joinedFunctions : Text := renderFunctionsFile {} [petsOperation "pets"]

private def joinedUpdated : Machine where
  files := joinedTree
    [(["src", "api", "tag-mapping.json"], .file (.text petsAliasText)),
      (["src", "api", "pets", "types.ts"], .file (.text joinedFunctions))]
  warnings := [.overwritten "src/api/pets/index.ts"]

private def joinedAgain : Machine :=
  { joinedUpdated with warnings := joinedUpdated.warnings ++ joinedUpdated.warnings }

set_option maxRecDepth 4000 in
private theorem update_joined :
    ∃ result, (update {} petsDirectory {} : Task (StateM Machine) UpdateResult).Ends joined result joinedUpdated := by
  have haliases : (loadAliases petsOutput [] : Task (StateM Machine) Aliases).Ends joined {} joined := by
    unfold Ends
    cbv
  have hsaved : (saveAliases petsOutput petsAliases : Task (StateM Machine) Unit).Ends joined () joinedSaved := by
    unfold Ends
    cbv
  have hgroup : (generateGroup {} petsOutput [] ("pets", [petsOperation "pets"]) :
      Task (StateM Machine) GroupResult).Ends joinedSaved ⟨"pets", .replaced, 1, 0⟩ joinedUpdated := by
    unfold Ends
    cbv
  rw [← register_pets] at hsaved
  obtain ⟨result, hupdate, -⟩ := update_of_group (loadDescription_pets rfl) haliases hsaved
    petsModel_operations petsModel_allTypes hgroup
  exact ⟨result, hupdate⟩

set_option maxRecDepth 4000 in
private theorem update_joinedUpdated :
    ∃ again, (update {} petsDirectory {} : Task (StateM Machine) UpdateResult).Ends joinedUpdated again joinedAgain ∧
      again.groups = [⟨"pets", .replaced, 1, 0⟩] := by
  let given : Aliases := { mapping := [("pets", "pets")], source := .file }
  have haliases : (loadAliases petsOutput [] : Task (StateM Machine) Aliases).Ends joinedUpdated given
      joinedUpdated := by
    unfold Ends
    cbv
  have hsaved : (saveAliases petsOutput (given.register (allTags petsDocument)) :
      Task (StateM Machine) Unit).Ends joinedUpdated () joinedUpdated := by
    unfold Ends
    cbv
  have hoperations : (plannedModel {} given petsDocument).operations = [("pets".toList, [petsOperation "pets"])] := by
    cbv
  have hgroup : (generateGroup {} petsOutput [] ("pets", [petsOperation "pets"]) :
      Task (StateM Machine) GroupResult).Ends joinedUpdated ⟨"pets", .replaced, 1, 0⟩ joinedAgain := by
    unfold Ends
    cbv
  have htypes : (plannedModel {} given petsDocument).allTypes = [] := by cbv
  obtain ⟨again, hagain, hgroups, -⟩ := update_of_group (loadDescription_pets rfl) haliases hsaved
    hoperations htypes hgroup
  exact ⟨again, hagain, hgroups⟩

/-- A description of an operation whose path has a marker and a carriage return in it. -/
private def returnText : Text :=
  "\x7b\"paths\":\x7b\"/x// --- AUTO GENERATED END ---\\r\":\x7b\"get\":\x7b\x7d\x7d\x7d\x7d"

private def returnPath : Text := "/x// --- AUTO GENERATED END ---\r"

private def returnDocument : Fields :=
  [(.text "paths", .object [(.text returnPath, .object [(.text "get", .object [])])])]

private def returnOperation : Operation :=
  { path := returnPath, cleanPath := returnPath, group := "default", callName := "getXAUTOGENERATEDEND" }

private def returnAliases : Aliases := { mapping := [("default", "default")], discovered := ["default"] }

private def returnTree (rest : List (Place × Entry)) : FileTree where
  here := []
  entries := (["swagger.json"], .file (.text returnText)) :: rest

private def returned : Machine where
  files := returnTree []

private def returnedSaved (rest : List (Place × Entry)) : Machine where
  files := returnTree
    ((["src"], .directory) :: (["src", "api"], .directory) ::
      (["src", "api", "tag-mapping.json"], .file (.text "\x7b\n  \"default\": \"default\"\n\x7d\n")) :: rest)

private def returnedWith (functions : Text) : Machine :=
  returnedSaved
    [(["src", "api", "default"], .directory),
      (["src", "api", "default", "types.ts"], .file (.text (renderTypesFile {} [] [returnOperation]))),
      (["src", "api", "default", "index.ts"], .file (.text functions))]

private def returnFunctions : Text := renderFunctionsFile {} [returnOperation]

private theorem loadDescription_return {rest : List (Place × Entry)} (h : m.files = returnTree rest) :
    (loadDescription petsDirectory "./swagger.json" : Task (StateM Machine) Fields).Ends m returnDocument m := by
  have hfind : (returnTree rest).find true (petsDirectory / Path.ofText "./swagger.json") =
      .ok (["swagger.json".toList], some (.file (.text returnText))) := by cbv
  have hparse : parseDescription (petsDirectory / Path.ofText "./swagger.json").toText returnText =
      .ok returnDocument := by cbv
  rw [← h] at hfind
  exact ends_loadDescription_of_find (by decide) hfind (by decide) hparse

set_option maxRecDepth 4000 in
private theorem update_returned :
    ∃ result, (update {} petsDirectory {} : Task (StateM Machine) UpdateResult).Ends returned result
      (returnedWith returnFunctions) := by
  have haliases : (loadAliases petsOutput [] : Task (StateM Machine) Aliases).Ends returned {} returned := by
    unfold Ends
    cbv
  have hregister : Aliases.register {} (allTags returnDocument) = returnAliases := by cbv
  have hsaved : (saveAliases petsOutput returnAliases : Task (StateM Machine) Unit).Ends returned ()
      (returnedSaved []) := by
    unfold Ends
    cbv
  have hoperations : (plannedModel {} {} returnDocument).operations = [("default".toList, [returnOperation])] := by cbv
  have htypes : (plannedModel {} {} returnDocument).allTypes = [] := by cbv
  have hgroup : (generateGroup {} petsOutput [] ("default", [returnOperation]) :
      Task (StateM Machine) GroupResult).Ends (returnedSaved []) ⟨"default", .created, 1, 0⟩
        (returnedWith returnFunctions) := by
    unfold Ends
    cbv
  rw [← hregister] at hsaved
  obtain ⟨result, hupdate, -⟩ := update_of_group (loadDescription_return rfl) haliases hsaved hoperations htypes hgroup
  exact ⟨result, hupdate⟩

set_option maxRecDepth 8000 in
private theorem update_returnedWith :
    ∃ again, (update {} petsDirectory {} : Task (StateM Machine) UpdateResult).Ends (returnedWith returnFunctions)
      again (returnedWith (unifyLineEnds returnFunctions)) := by
  let given : Aliases := { mapping := [("default", "default")], source := .file }
  have haliases : (loadAliases petsOutput [] : Task (StateM Machine) Aliases).Ends (returnedWith returnFunctions) given
      (returnedWith returnFunctions) := by
    unfold Ends
    cbv
  have hsaved : (saveAliases petsOutput (given.register (allTags returnDocument)) :
      Task (StateM Machine) Unit).Ends (returnedWith returnFunctions) () (returnedWith returnFunctions) := by
    unfold Ends
    cbv
  have hoperations : (plannedModel {} given returnDocument).operations =
      [("default".toList, [returnOperation])] := by cbv
  have htypes : (plannedModel {} given returnDocument).allTypes = [] := by cbv
  have hgroup : (generateGroup {} petsOutput [] ("default", [returnOperation]) :
      Task (StateM Machine) GroupResult).Ends (returnedWith returnFunctions) ⟨"default", .merged, 1, 0⟩
        (returnedWith (unifyLineEnds returnFunctions)) := by
    unfold Ends
    cbv
  obtain ⟨again, hagain, -⟩ := update_of_group (loadDescription_return rfl) haliases hsaved hoperations htypes hgroup
  exact ⟨again, hagain⟩

/-- A second update discovers a category again if the file of aliases is a link to a file of types, replaces the
functions of a group that are a link to its types, and changes a file in which a carriage return stands behind what
reads as the end of the region. -/
theorem update_again_hindered :
    (∃ result again m',
      (update {} petsDirectory {} : Task (StateM Machine) UpdateResult).Ends linked result linkedUpdated ∧
      (update {} petsDirectory {} : Task (StateM Machine) UpdateResult).Ends linkedUpdated again m' ∧
      again.newLabels = ["pets".toList]) ∧
    (∃ result again m',
      (update {} petsDirectory {} : Task (StateM Machine) UpdateResult).Ends joined result joinedUpdated ∧
      (update {} petsDirectory {} : Task (StateM Machine) UpdateResult).Ends joinedUpdated again m' ∧
      again.groups = [⟨"pets", .replaced, 1, 0⟩]) ∧
    ∃ result again m',
      (update {} petsDirectory {} : Task (StateM Machine) UpdateResult).Ends returned result
        (returnedWith returnFunctions) ∧
      (update {} petsDirectory {} : Task (StateM Machine) UpdateResult).Ends (returnedWith returnFunctions) again m' ∧
      m'.files.get? ["src", "api", "default", "index.ts"] ≠
        (returnedWith returnFunctions).files.get? ["src", "api", "default", "index.ts"] := by
  refine ⟨?_, ?_, ?_⟩
  · obtain ⟨result, hupdate⟩ := update_linked
    obtain ⟨again, hagain, hlabels⟩ := update_linkedUpdated
    exact ⟨result, again, _, hupdate, hagain, hlabels⟩
  · obtain ⟨result, hupdate⟩ := update_joined
    obtain ⟨again, hagain, hgroups⟩ := update_joinedUpdated
    exact ⟨result, again, _, hupdate, hagain, hgroups⟩
  · obtain ⟨result, hupdate⟩ := update_returned
    obtain ⟨again, hagain⟩ := update_returnedWith
    refine ⟨result, again, _, hupdate, hagain, fun heq => ?_⟩
    have htext (functions : Text) :
        (returnedWith functions).files.textAt? ["src", "api", "default", "index.ts"] = some functions := rfl
    have hsame := textAt?_congr heq
    rw [htext, htext] at hsame
    have hreturn : '\r' ∈ returnFunctions := by decide +kernel
    refine notMem_unifyLineEnds returnFunctions ?_
    rw [Option.some.inj hsame]
    exact hreturn

end ClientGen
