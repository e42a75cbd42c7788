import ClientGen.Project.Update
import ClientGen.Proofs.Project.AliasFile
/-!
# Runs of updates

An update loads a model and then writes files: that of the aliases, if there are new ones, and two for every
group.
-/

namespace ClientGen

open Text ClientGen.Task FileTree

/-! ## Writes -/

/-- The files of `m'` are made from those of `m` by writes, and requests are answered as before. -/
structure Machine.Writes (ws : List (Path × Text)) (m m' : Machine) : Prop where
  files_written : FileTree.Writes ws m.files m'.files
  replies_eq : m'.replies = m.replies

namespace Machine.Writes

variable {m m' m'' : Machine} {ws vs : List (Path × Text)}

theorem of_eq (hf : m'.files = m.files) (hr : m'.replies = m.replies) : Writes [] m m' where
  files_written := .done (hf ▸ .refl m.files)
  replies_eq := hr

theorem append (h : Writes ws m m') (h' : Writes vs m' m'') : Writes (ws ++ vs) m m'' where
  files_written := h.files_written.append h'.files_written
  replies_eq := h'.replies_eq.trans h.replies_eq

end Machine.Writes

variable {s : Settings} {output directory path : Path} {m m' : Machine}

theorem ends_writeOutput {t : Text} {u : Unit}
    (h : (writeOutput path t : Task (StateM Machine) Unit).Ends m u m') : Machine.Writes [(path, t)] m m' := by
  obtain ⟨files, hw, rfl⟩ := ends_writeText.1 h
  exact ⟨.write (.refl _) hw (.done (.refl _)), rfl⟩

theorem ends_makeOutput_writes {u : Unit} (h : (makeOutput path : Task (StateM Machine) Unit).Ends m u m') :
    Machine.Writes [] m m' := by
  obtain ⟨files, hd, rfl⟩ := ends_makeOutput.1 h
  have hgrows := makeDirectories_grows m.files path
  rw [hd] at hgrows
  exact ⟨.done hgrows, rfl⟩

theorem ends_warn_writes {w : Warning} {u : Unit} (h : (warn w : Task (StateM Machine) Unit).Ends m u m') :
    Machine.Writes [] m m' := by
  obtain rfl := ends_warn.1 h
  exact .of_eq rfl rfl

/-- What is written to the file of aliases. -/
def aliasWrites (output : Path) (a : Aliases) : List (Path × Text) :=
  if a.source = .config || a.discovered = [] then []
  else [(output.child aliasFileName, Json.write (Aliases.toValue a.mapping) ++ "\n")]

theorem ends_saveAliases {a : Aliases} {u : Unit}
    (h : (saveAliases output a : Task (StateM Machine) Unit).Ends m u m') :
    Machine.Writes (aliasWrites output a) m m' ∧ (a.discovered = [] → m' = m) := by
  unfold saveAliases at h
  unfold aliasWrites
  split at h
  · next hnone =>
    obtain ⟨-, rfl⟩ := ends_pure.1 h
    rw [if_pos hnone]
    exact ⟨.of_eq rfl rfl, fun _ => rfl⟩
  · next hsome =>
    rw [if_neg hsome]
    obtain ⟨_, m₁, hd, hw⟩ := ends_bind.1 h
    refine ⟨(ends_makeOutput_writes hd).append (ends_writeOutput hw), fun hnil => ?_⟩
    exact absurd (by simp [hnil]) hsome

theorem ends_saveAliases_nothing {a : Aliases} (h : a.source = .config ∨ a.discovered = []) :
    (saveAliases output a : Task (StateM Machine) Unit).Ends m () m := by
  unfold saveAliases
  rw [if_pos (by simpa using h)]
  exact ends_pure.2 ⟨rfl, rfl⟩

/-! ## Groups -/

def typesPath (output : Path) (group : Text) : Path := (output.child group).child typesFileName

def functionsPath (output : Path) (group : Text) : Path := (output.child group).child functionsFileName

/-- What is written for a group whose functions are merged into an existing file. -/
def groupWrites (output : Path) (group types functions : Text) (existing : Option Text) :
    List (Path × Text) :=
  [(typesPath output group, types),
    (functionsPath output group, (mergeFunctionsFile existing functions).content)]

theorem ends_writeGroup {group types functions : Text} {action : MergeAction}
    (h : (writeGroup output group types functions : Task (StateM Machine) MergeAction).Ends m action m') :
    ∃ existing, Machine.Writes (groupWrites output group types functions existing) m m' := by
  unfold writeGroup at h
  dsimp only at h
  obtain ⟨_, m₁, hdirectory, h⟩ := ends_bind.1 h
  obtain ⟨_, m₂, htypes, h⟩ := ends_bind.1 h
  obtain ⟨existing, m₃, hread, h⟩ := ends_bind.1 h
  obtain ⟨-, rfl⟩ := ends_readOutput?.1 hread
  have hbefore := (ends_makeOutput_writes hdirectory).append (ends_writeOutput htypes)
  refine ⟨existing, ?_⟩
  split at h
  · obtain ⟨_, m₃, hwarn, hrest⟩ := ends_bind.1 h
    obtain ⟨_, m₄, hfunctions, hend⟩ := ends_bind.1 hrest
    obtain ⟨-, rfl⟩ := ends_pure.1 hend
    exact hbefore.append ((ends_warn_writes hwarn).append (ends_writeOutput hfunctions))
  · obtain ⟨_, m₃, hfunctions, hend⟩ := ends_bind.1 h
    obtain ⟨-, rfl⟩ := ends_pure.1 hend
    exact hbefore.append (ends_writeOutput hfunctions)

theorem ends_generateGroup {types : List NamedType} {g : Text × List Operation} {r : GroupResult}
    (h : (generateGroup s output types g : Task (StateM Machine) GroupResult).Ends m r m') :
    ∃ existing, Machine.Writes (groupWrites output g.1 (renderTypesFile s (groupTypes g.2 types) g.2)
      (renderFunctionsFile s g.2) existing) m m' := by
  obtain ⟨action, m₁, hw, hr⟩ := ends_bind.1 h
  obtain ⟨-, rfl⟩ := ends_pure.1 hr
  exact ends_writeGroup hw

def groupPaths (output : Path) (groups : List (Text × List Operation)) : List Path :=
  groups.flatMap fun g => [typesPath output g.1, functionsPath output g.1]

theorem ends_generateGroups {types : List NamedType} {groups : List (Text × List Operation)}
    {rs : List GroupResult}
    (h : (groups.mapM (generateGroup s output types) : Task (StateM Machine) _).Ends m rs m') :
    ∃ ws, Machine.Writes ws m m' ∧ ws.map Prod.fst = groupPaths output groups ∧
      ∀ g ∈ groups, ∃ existing,
        ∀ w ∈ groupWrites output g.1 (renderTypesFile s (groupTypes g.2 types) g.2)
          (renderFunctionsFile s g.2) existing, w ∈ ws := by
  induction groups generalizing m rs with
  | nil =>
    obtain ⟨-, rfl⟩ := ends_mapM_nil.1 h
    exact ⟨[], .of_eq rfl rfl, rfl, by simp⟩
  | cons g groups ih =>
    obtain ⟨r, m₁, rs', hg, hrest, -⟩ := ends_mapM_cons.1 h
    obtain ⟨existing, hfirst⟩ := ends_generateGroup hg
    obtain ⟨ws, hws, hpaths, hall⟩ := ih hrest
    refine ⟨_, hfirst.append hws, ?_, ?_⟩
    · rw [List.map_append, hpaths]
      rfl
    · intro g' hg'
      rcases List.mem_cons.1 hg' with rfl | hg'
      · exact ⟨existing, fun w hw => List.mem_append_left _ hw⟩
      · obtain ⟨existing', hall⟩ := hall g' hg'
        exact ⟨existing', fun w hw => List.mem_append_right _ (hall w hw)⟩

/-! ## The whole update -/

/-- The model of a document under given aliases. -/
def plannedModel (s : Settings) (given : Aliases) (document : Fields) : ApiModel :=
  ApiModel.ofDocument s (given.register (allTags document)) document

/-- What an update writes once it has loaded a description and aliases. -/
structure WritesModel (s : Settings) (output : Path) (given : Aliases) (document : Fields)
    (ws : List (Path × Text)) (m m' : Machine) : Prop where
  written : Machine.Writes (aliasWrites output (given.register (allTags document)) ++ ws) m m'
  paths_eq : ws.map Prod.fst = groupPaths output (plannedModel s given document).operations
  groups_written : ∀ g ∈ (plannedModel s given document).operations, ∃ existing,
    ∀ w ∈ groupWrites output g.1
      (renderTypesFile s (groupTypes g.2 (plannedModel s given document).allTypes) g.2)
      (renderFunctionsFile s g.2) existing, w ∈ ws
  same : (given.register (allTags document)).discovered = [] →
    (plannedModel s given document).operations = [] → m' = m

/-- An update loads a description and aliases, and then writes the files of new aliases and of the groups. -/
theorem ends_update {result : UpdateResult}
    (h : (update s directory {} : Task (StateM Machine) UpdateResult).Ends m result m') :
    ∃ document m₁ given m₂ ws,
      (loadDescription directory s.input : Task (StateM Machine) Fields).Ends m document m₁ ∧
      (loadAliases (directory / Path.ofText s.output) s.tagMapping :
        Task (StateM Machine) Aliases).Ends m₁ given m₂ ∧
      WritesModel s (directory / Path.ofText s.output) given document ws m₂ m' := by
  unfold update at h
  dsimp only at h
  obtain ⟨document, m₁, hdocument, haliases⟩ := ends_bind.1 h
  obtain ⟨given, m₂, hgiven, hsave⟩ := ends_bind.1 haliases
  obtain ⟨_, m₃, hsaved, hgenerate⟩ := ends_bind.1 hsave
  rw [if_neg Bool.false_ne_true, if_neg Bool.false_ne_true] at hgenerate
  obtain ⟨groups, m₄, hgroups, hend⟩ := ends_bind.1 hgenerate
  obtain ⟨-, rfl⟩ := ends_pure.1 hend
  obtain ⟨hfirst, hunchanged⟩ := ends_saveAliases hsaved
  obtain ⟨ws, hws, hpaths, hall⟩ := ends_generateGroups hgroups
  refine ⟨document, m₁, given, m₂, ws, hdocument, hgiven, hfirst.append hws, hpaths, hall, ?_⟩
  intro hdiscovered hoperations
  obtain rfl := hunchanged hdiscovered
  rw [plannedModel] at hoperations
  rw [hoperations] at hgroups
  exact (ends_mapM_nil.1 hgroups).2.symm

end ClientGen
