import ClientGen.Proofs.Files.Extent
import ClientGen.Proofs.Project.Check
/-!
# The extent of an update

An update, whether it ends or fails, removes nothing but entries of the output directory, and writes nothing but the
file of aliases and the files of groups. Where a group has its files is a matter of its name, and the name may lead out
of the output directory.
-/

namespace ClientGen

open Text ClientGen.Task

variable {α β : Type} {m m' : Machine} {e : Extent} {path : Path}

/-! ## Tasks that only read -/

/-- The task leaves the files as they are, whether it ends or fails. -/
def Task.KeepsFiles (x : Task (StateM Machine) α) : Prop := ∀ m : Machine, (m.run x.run).2.files = m.files

/-- The task changes files within an extent, whether it ends or fails. -/
def Task.Touches (e : Extent) (x : Task (StateM Machine) α) (m : Machine) : Prop :=
  FileTree.Touched e m.files (m.run x.run).2.files

namespace Task

namespace KeepsFiles

protected theorem pure (a : α) : KeepsFiles (pure a) := fun _ => rfl

protected theorem throw (e : Failure) : KeepsFiles (throw e : Task (StateM Machine) α) := fun _ => rfl

protected theorem bind {x : Task (StateM Machine) α} {f : α → Task (StateM Machine) β} (hx : KeepsFiles x)
    (hf : ∀ a, KeepsFiles (f a)) : KeepsFiles (x >>= f) := by
  intro m
  have hfirst := hx m
  rw [run_bind]
  cases hrun : m.run x.run with
  | mk r m₁ =>
    rw [hrun] at hfirst
    cases r with
    | ok a => exact (hf a m₁).trans hfirst
    | error e => exact hfirst

protected theorem attempt (failure : FileError → Failure) {action : StateM Machine (Except FileError α)}
    (h : ∀ m : Machine, (m.run action).2.files = m.files) : KeepsFiles (attempt failure action) := by
  intro m
  have haction := h m
  rw [run_attempt]
  cases hrun : m.run action with
  | mk r m₁ =>
    rw [hrun] at haction
    cases r <;> exact haction

protected theorem lift {action : StateM Machine α} (h : ∀ m : Machine, (m.run action).2.files = m.files) :
    KeepsFiles (liftM action : Task (StateM Machine) α) := h

protected theorem liftExcept (x : Except Failure α) : KeepsFiles (liftM x : Task (StateM Machine) α) := fun _ => rfl

protected theorem mapM {f : α → Task (StateM Machine) β} (h : ∀ a, KeepsFiles (f a)) (as : List α) :
    KeepsFiles (as.mapM f) := by
  induction as with
  | nil => exact .pure _
  | cons a as ih =>
    rw [List.mapM_cons]
    exact .bind (h a) fun b => .bind ih fun bs => .pure _

theorem ends {x : Task (StateM Machine) α} {a : α} (hx : KeepsFiles x) (h : x.Ends m a m') : m'.files = m.files := by
  have hfiles := hx m
  rw [h] at hfiles
  exact hfiles

end KeepsFiles

namespace Touches

theorem of_keepsFiles {x : Task (StateM Machine) α} (h : KeepsFiles x) (m : Machine) : Touches e x m := by
  rw [Touches, h m]
  exact .refl _

protected theorem bind {x : Task (StateM Machine) α} {f : α → Task (StateM Machine) β} (hx : Touches e x m)
    (hf : ∀ a m₁, x.Ends m a m₁ → Touches e (f a) m₁) : Touches e (x >>= f) m := by
  unfold Touches at hx ⊢
  rw [run_bind]
  cases hrun : m.run x.run with
  | mk r m₁ =>
    rw [hrun] at hx
    cases r with
    | ok a => exact hx.trans (hf a m₁ hrun)
    | error e => exact hx

protected theorem forM {f : α → Task (StateM Machine) PUnit} {as : List α} (h : ∀ a ∈ as, ∀ m, Touches e (f a) m)
    (m : Machine) : Touches e (as.forM f) m := by
  induction as generalizing m with
  | nil => exact of_keepsFiles (.pure _) m
  | cons a as ih =>
    exact .bind (h a List.mem_cons_self m) fun _ m₁ _ => ih (fun b hb => h b (List.mem_cons_of_mem _ hb)) m₁

protected theorem mapM {f : α → Task (StateM Machine) β} {as : List α} (h : ∀ a ∈ as, ∀ m, Touches e (f a) m)
    (m : Machine) : Touches e (as.mapM f) m := by
  induction as generalizing m with
  | nil => exact of_keepsFiles (.pure _) m
  | cons a as ih =>
    rw [List.mapM_cons]
    refine .bind (h a List.mem_cons_self m) fun _ m₁ _ => .bind ?_ fun _ m₂ _ => of_keepsFiles (.pure _) m₂
    exact ih (fun b hb => h b (List.mem_cons_of_mem _ hb)) m₁

/-- A change that succeeds is one within the extent, and one that fails leaves the files as they are. -/
private theorem attempt_change (failure : FileError → Failure) {f : FileTree → Except FileError FileTree}
    (h : ∀ t t', f t = .ok t' → FileTree.Touched e t t') (m : Machine) :
    Touches e (attempt failure (Machine.change f)) m := by
  unfold Touches
  rw [run_attempt]
  have hrun : m.run (Machine.change f) = Machine.change f m := rfl
  rw [hrun]
  cases hf : f m.files with
  | ok t => simpa [Machine.change, hf] using h _ _ hf
  | error e => simpa [Machine.change, hf] using .refl _

end Touches

end Task

theorem keepsFiles_isFile : KeepsFiles (isFile path) := .attempt _ fun _ => rfl

theorem keepsFiles_isDirectory : KeepsFiles (isDirectory path) := .attempt _ fun _ => rfl

theorem keepsFiles_readText {failure : Failure} : KeepsFiles (readText failure path) := by
  unfold readText
  refine .bind (.attempt _ fun _ => rfl) fun c => ?_
  cases c with
  | text t => exact .pure _
  | bytes bs => exact .throw _

theorem keepsFiles_warn {w : Warning} : KeepsFiles (warn w) := .lift fun _ => rfl

theorem keepsFiles_request {url : Text} :
    KeepsFiles (liftM (Host.request url : StateM Machine (Except Text Reply))) := by
  refine .lift fun m => ?_
  unfold Machine.run
  simp only [Host.request]
  cases m.replies.get? url <;> rfl

theorem keepsFiles_fetchFrom (asked : Text) (redirects : Nat) (url : Url) :
    KeepsFiles (fetchFrom asked redirects url) :=
  fetchFrom_induction .pure .throw (fun _ _ hf => .bind keepsFiles_request hf) asked redirects url

theorem keepsFiles_loadDescription (directory : Path) (location : Text) :
    KeepsFiles (loadDescription directory location) := by
  unfold loadDescription
  split
  · exact .bind (keepsFiles_fetchFrom _ _ _) fun t => .liftExcept _
  · refine .bind ?_ fun t => .liftExcept _
    unfold readDescription
    refine .bind keepsFiles_isFile fun b => ?_
    cases b with
    | false => exact .throw _
    | true => exact keepsFiles_readText

theorem keepsFiles_loadAliases (output : Path) (configured : Table Text) :
    KeepsFiles (loadAliases output configured) := by
  unfold loadAliases
  split
  · exact .pure _
  · refine .bind ?_ fun mapping => .pure _
    unfold readAliasFile
    refine .bind keepsFiles_isFile fun b => ?_
    cases b with
    | false => exact .pure _
    | true =>
      refine .bind (.lift fun _ => rfl) fun r => ?_
      split
      · exact .throw _
      · exact .bind keepsFiles_warn fun _ => .pure _
      · exact .throw _
      · split
        · exact .throw _
        · exact .bind keepsFiles_warn fun _ => .pure _
        · exact .pure _
        · exact .bind keepsFiles_warn fun _ => .pure _

theorem keepsFiles_readOutput? : KeepsFiles (readOutput? path) := by
  unfold readOutput?
  refine .bind keepsFiles_isFile fun b => ?_
  cases b with
  | false => exact .pure _
  | true => exact .bind keepsFiles_readText fun t => .pure _

theorem keepsFiles_checkGroup (s : Settings) (output : Path) (types : List NamedType) (g : Text × List Operation) :
    KeepsFiles (checkGroup s output types g) :=
  .bind keepsFiles_readOutput? fun _ => .bind keepsFiles_readOutput? fun _ => .pure _

/-! ## Tasks that change files -/

theorem touches_writeText {failure : Failure} {t : Text} (h : e.written path) (m : Machine) :
    Touches e (writeText failure path t) m :=
  .attempt_change _ (fun _ _ hw => .write h hw (.refl _)) m

theorem touches_removeOutput (h : e.removed path) (m : Machine) : Touches e (removeOutput path) m :=
  .attempt_change _ (fun _ _ hr => .remove h hr (.refl _)) m

theorem touches_makeOutput (h : e.made path) (m : Machine) : Touches e (makeOutput path) m := by
  have hrun : m.run (Host.makeDirectories path : StateM Machine (Except FileError Unit)) =
      ((m.files.makeDirectories path).1, { m with files := (m.files.makeDirectories path).2 }) := rfl
  unfold Touches makeOutput
  rw [run_attempt, hrun]
  cases hd : m.files.makeDirectories path with
  | mk r files =>
    have hmake : FileTree.Touched e m.files files := .make h (by rw [hd]; exact .refl _)
    cases r <;> exact hmake

variable {s : Settings} {output directory : Path}

theorem touches_saveAliases (a : Aliases) (hmade : e.made output) (hwritten : e.written (output.child aliasFileName))
    (m : Machine) : Touches e (saveAliases output a) m := by
  unfold saveAliases
  split
  · exact .of_keepsFiles (.pure _) m
  · exact .bind (touches_makeOutput hmade m) fun _ m₁ _ => touches_writeText hwritten m₁

theorem touches_clearOutput (hn : m.files.WellNamed)
    (hremoved : ∀ name, IsFileName name → e.removed (output.child name)) (keep : List Text) :
    Touches e (clearOutput output keep) m := by
  unfold clearOutput
  refine .bind (.of_keepsFiles keepsFiles_isDirectory m) fun b m₁ hb => ?_
  have hfiles := keepsFiles_isDirectory.ends hb
  cases b with
  | false => exact .of_keepsFiles (.pure _) m₁
  | true =>
    refine .bind (.of_keepsFiles (.attempt _ fun _ => rfl) m₁) fun names m₂ hnames => ?_
    have hlisted : m.files.names output = .ok names := by
      have hrun := ends_attempt.1 hnames
      rw [← hfiles]
      exact (Prod.mk.inj hrun).1
    refine .forM (fun name hname m₃ => ?_) m₂
    exact touches_removeOutput (hremoved name (hn.isFileName_of_mem_names hlisted (List.mem_filter.1 hname).1)) m₃

/-- The files of a group may be written, and its directory may be made. -/
structure Extent.AllowsGroup (e : Extent) (output : Path) (group : Text) : Prop where
  directory : e.made (output.child group)
  types : e.written (typesPath output group)
  functions : e.written (functionsPath output group)

theorem touches_generateGroup {types : List NamedType} {g : Text × List Operation} (hg : e.AllowsGroup output g.1)
    (m : Machine) : Touches e (generateGroup s output types g) m := by
  unfold generateGroup
  dsimp only
  refine .bind ?_ fun _ m₁ _ => .of_keepsFiles (.pure _) m₁
  unfold writeGroup
  dsimp only
  refine .bind (touches_makeOutput hg.directory m) fun _ m₁ _ => .bind (touches_writeText hg.types m₁) fun _ m₂ _ => ?_
  refine .bind (.of_keepsFiles keepsFiles_readOutput? m₂) fun existing m₃ _ => ?_
  split
  · refine .bind (.of_keepsFiles keepsFiles_warn m₃) fun _ m₄ _ => ?_
    exact .bind (touches_writeText hg.functions m₄) fun _ m₅ _ => .of_keepsFiles (.pure _) m₅
  · exact .bind (touches_writeText hg.functions m₃) fun _ m₅ _ => .of_keepsFiles (.pure _) m₅

/-! ## The extent of an update -/

/-- On the machine `m`, an update plans to generate the group: the description and the aliases are loaded, and have
it. -/
def PlansGroup (s : Settings) (directory : Path) (m : Machine) (g : Text) : Prop :=
  ∃ document m₁ given m₂,
    (loadDescription directory s.input : Task (StateM Machine) Fields).Ends m document m₁ ∧
    (loadAliases (directory / Path.ofText s.output) s.tagMapping : Task (StateM Machine) Aliases).Ends m₁ given m₂ ∧
    g ∈ (plannedModel s given document).operations.keys

theorem wellNamed_saveAliases {a : Aliases} {u : Unit} (houtput : output.IsProper) (hn : m.files.WellNamed)
    (h : (saveAliases output a : Task (StateM Machine) Unit).Ends m u m') : m'.files.WellNamed := by
  unfold saveAliases at h
  split at h
  · obtain ⟨-, rfl⟩ := ends_pure.1 h
    exact hn
  · obtain ⟨_, m₁, hmade, hwritten⟩ := ends_bind.1 h
    obtain ⟨made, hd, rfl⟩ := ends_makeOutput.1 hmade
    obtain ⟨written, hw, rfl⟩ := ends_writeText.1 hwritten
    have hmadeNamed := hn.makeDirectories houtput
    rw [hd] at hmadeNamed
    exact hmadeNamed.write (houtput.child _) hw

/-- What an update touches is told by its options: the file of aliases, the files of the groups that it plans unless it
is to write aliases alone, and the entries of the output directory if it is to remove these first. -/
theorem touches_update_of {options : UpdateOptions} (hmade : e.made (directory / Path.ofText s.output))
    (hwritten : e.written ((directory / Path.ofText s.output).child aliasFileName))
    (hplanned : options.initOnly = false → ∀ g, PlansGroup s directory m g →
      e.AllowsGroup (directory / Path.ofText s.output) g)
    (hcleared : options.clean = true → m.files.WellNamed ∧ directory.IsProper ∧
      ∀ name, IsFileName name → e.removed ((directory / Path.ofText s.output).child name)) :
    Touches e (update s directory options) m := by
  unfold update
  refine .bind (.of_keepsFiles (keepsFiles_loadDescription _ _) m) fun document m₁ hdocument => ?_
  refine .bind (.of_keepsFiles (keepsFiles_loadAliases _ _) m₁) fun given m₂ hgiven => ?_
  -- Loading leaves the files as they are, so the names that are listed later still are file names.
  have hfiles : m₂.files = m.files :=
    ((keepsFiles_loadAliases _ _).ends hgiven).trans ((keepsFiles_loadDescription _ _).ends hdocument)
  refine .bind (touches_saveAliases _ hmade hwritten m₂) fun _ m₃ hsaved => ?_
  cases hoptions : options.initOnly with
  | true =>
    rw [if_pos rfl]
    exact .of_keepsFiles (.pure _) m₃
  | false =>
    have hgroups (m₄ : Machine) : Touches e ((plannedModel s given document).operations.mapM
        (generateGroup s (directory / Path.ofText s.output) (plannedModel s given document).allTypes)) m₄ :=
      .mapM (fun g hg m₅ => touches_generateGroup (hplanned hoptions g.1
        ⟨document, m₁, given, m₂, hdocument, hgiven, List.mem_map_of_mem hg⟩) m₅) m₄
    rw [if_neg Bool.false_ne_true]
    split
    · next hclean =>
      obtain ⟨hn, hdirectory, hremoved⟩ := hcleared hclean
      have hnamed : m₃.files.WellNamed :=
        wellNamed_saveAliases (hdirectory.join (Path.isProper_ofText _)) (hfiles ▸ hn) hsaved
      refine .bind (touches_clearOutput hnamed hremoved _) fun _ m₄ _ => ?_
      exact .bind (hgroups m₄) fun _ m₅ _ => .of_keepsFiles (.pure _) m₅
    · exact .bind (hgroups m₃) fun _ m₅ _ => .of_keepsFiles (.pure _) m₅

/-- What an update may touch when it generates some groups: the file of aliases and the files of the groups are written,
and entries of the output directory are removed. -/
def updateExtent (output : Path) (planned : Text → Prop) : Extent where
  written path := path = output.child aliasFileName ∨
    ∃ g, planned g ∧ (path = typesPath output g ∨ path = functionsPath output g)
  made path := path = output ∨ ∃ g, planned g ∧ path = output.child g
  removed path := ∃ name, IsFileName name ∧ path = output.child name

variable {planned : Text → Prop}

theorem touches_update (hn : m.files.WellNamed) (hdirectory : directory.IsProper) (options : UpdateOptions) :
    Touches (updateExtent (directory / Path.ofText s.output) (PlansGroup s directory m)) (update s directory options) m :=
  touches_update_of (.inl rfl) (.inl rfl)
    (fun _ g hg => ⟨.inr ⟨g, hg, rfl⟩, .inr ⟨g, hg, .inl rfl⟩, .inr ⟨g, hg, .inr rfl⟩⟩)
    fun _ => ⟨hn, hdirectory, fun name hname => ⟨name, hname, rfl⟩⟩

/-- The path writes a place in the directory that another one writes, both as seen from `here`. -/
def Path.Inside (here : Place) (output path : Path) : Prop := output.placeFrom here <+: path.placeFrom here

theorem Path.inside_child (here : Place) (output : Path) {name : Text} (h : IsFileName name) :
    Inside here output (output.child name) := by
  rw [Inside, placeFrom_child here output h]
  exact List.prefix_append _ _

theorem Path.Inside.child {here : Place} {output path : Path} (h : Inside here output path) {name : Text}
    (hname : IsFileName name) : Inside here output (path.child name) :=
  h.trans (inside_child here path hname)

/-- The files of groups whose directory is outside the output directory are the only ones that are written outside. -/
private theorem inside_of_written (here : Place) (h : (updateExtent output planned).written path) :
    Path.Inside here output path ∨ ∃ g, planned g ∧ ¬Path.Inside here output (output.child g) ∧
      (path = typesPath output g ∨ path = functionsPath output g) := by
  rcases h with rfl | ⟨g, hg, hpath⟩
  · exact .inl (Path.inside_child here output isFileName_aliasFileName)
  · by_cases hinside : Path.Inside here output (output.child g)
    · rcases hpath with rfl | rfl
      · exact .inl (hinside.child isFileName_typesFileName)
      · exact .inl (hinside.child isFileName_functionsFileName)
    · exact .inr ⟨g, hg, hinside, hpath⟩

private theorem inside_of_removed (here : Place) (h : (updateExtent output planned).removed path) :
    Path.Inside here output path := by
  obtain ⟨name, hname, rfl⟩ := h
  exact Path.inside_child here output hname

theorem find_typesPath_of_ends {options : UpdateOptions} {result : UpdateResult} (hoptions : options.initOnly = false)
    (h : (update s directory options : Task (StateM Machine) UpdateResult).Ends m result m') {g : Text}
    (hg : PlansGroup s directory m g) :
    ∃ p c, m'.files.find true (typesPath (directory / Path.ofText s.output) g) = .ok (p, some (.file c)) := by
  obtain ⟨document, m₁, given, m₂, hdocument, hgiven, hgroup⟩ := hg
  obtain ⟨group, hmem, rfl⟩ := List.mem_map.1 hgroup
  unfold update at h
  obtain ⟨document', m₁', hdocument', h⟩ := ends_bind.1 h
  obtain ⟨rfl, rfl⟩ := hdocument'.unique hdocument
  obtain ⟨given', m₂', hgiven', h⟩ := ends_bind.1 h
  obtain ⟨rfl, rfl⟩ := hgiven'.unique hgiven
  obtain ⟨_, m₃, hsaved, h⟩ := ends_bind.1 h
  have hwritten {m₄ : Machine} {rs : List GroupResult}
      (hgroups : ((plannedModel s given' document').operations.mapM
        (generateGroup s (directory / Path.ofText s.output) (plannedModel s given' document').allTypes) :
          Task (StateM Machine) _).Ends m₄ rs m') :
      ∃ p c, m'.files.find true (typesPath (directory / Path.ofText s.output) group.1) = .ok (p, some (.file c)) := by
    obtain ⟨ws, hws, hpaths, -⟩ := ends_generateGroups hgroups
    refine hws.files_written.find_file (hpaths ▸ ?_)
    exact List.mem_flatMap.2 ⟨group, hmem, List.mem_cons_self⟩
  rw [if_neg (by simp [hoptions])] at h
  split at h
  · obtain ⟨_, m₄, hcleared, h⟩ := ends_bind.1 h
    obtain ⟨groups, m₅, hgroups, hend⟩ := ends_bind.1 h
    obtain ⟨-, rfl⟩ := ends_pure.1 hend
    exact hwritten hgroups
  · obtain ⟨groups, m₅, hgroups, hend⟩ := ends_bind.1 h
    obtain ⟨-, rfl⟩ := ends_pure.1 hend
    exact hwritten hgroups

/-- Whether an update ends or fails, it removes entries of the output directory alone, and it writes inside the output
directory but for the two files of each group whose name leads out of it. A group that is a file name never does. An
update that ends leaves the types of every group where they are planned, those outside too. -/
theorem update_inside_output (s : Settings) (directory : Path) (options : UpdateOptions) (m : Machine)
    (hn : m.files.WellNamed) (hdirectory : directory.IsProper) :
    let output := directory / Path.ofText s.output
    let here := m.files.here
    let extent := updateExtent output (PlansGroup s directory m)
    let after := (m.run (update s directory options : Task (StateM Machine) UpdateResult).run).2.files
    FileTree.Touched extent m.files after ∧
    (∀ path, extent.removed path → Path.Inside here output path) ∧
    (∀ path, extent.written path → Path.Inside here output path ∨
      ∃ g, PlansGroup s directory m g ∧ ¬Path.Inside here output (output.child g) ∧
        (path = typesPath output g ∨ path = functionsPath output g)) ∧
    (m.files.HasNoLinks → ∀ p, after.contentAt? p ≠ m.files.contentAt? p → output.placeFrom here <+: p ∨
      ∃ g, PlansGroup s directory m g ∧ ¬Path.Inside here output (output.child g) ∧
        (p = (typesPath output g).placeFrom here ∨ p = (functionsPath output g).placeFrom here)) ∧
    (∀ g, PlansGroup s directory m g → IsFileName g → Path.Inside here output (output.child g)) ∧
    (∀ result m', (update s directory options : Task (StateM Machine) UpdateResult).Ends m result m' →
      options.initOnly = false → ∀ g, PlansGroup s directory m g →
        ∃ p c, m'.files.find true (typesPath output g) = .ok (p, some (.file c))) := by
  intro output here extent after
  have htouched : FileTree.Touched extent m.files after := touches_update hn hdirectory options
  refine ⟨htouched, fun path => inside_of_removed here, fun path => inside_of_written here, fun hl p hp => ?_,
    fun g _ hname => Path.inside_child here output hname, fun result m' h hoptions g hg =>
      find_typesPath_of_ends hoptions h hg⟩
  rcases (htouched.content_eq hl).2.2 p hp with ⟨path, hpath, rfl⟩ | ⟨path, hpath, hbelow⟩
  · rcases inside_of_written here hpath with hinside | ⟨g, hg, houtside, rfl | rfl⟩
    · exact .inl hinside
    · exact .inr ⟨g, hg, houtside, .inl rfl⟩
    · exact .inr ⟨g, hg, houtside, .inr rfl⟩
  · exact .inl ((inside_of_removed here hpath).trans hbelow)

theorem plansGroup_pets_iff {g : Text} : PlansGroup {} petsDirectory pets g ↔ g = "pets" := by
  constructor
  · rintro ⟨document, m₁, given, m₂, hdocument, hgiven, hg⟩
    obtain ⟨rfl, rfl⟩ := hdocument.unique (loadDescription_pets rfl)
    obtain ⟨rfl, rfl⟩ := hgiven.unique loadAliases_pets
    change g ∈ petsModel.operations.keys at hg
    rw [petsModel_operations] at hg
    exact List.mem_singleton.1 hg
  · rintro rfl
    refine ⟨_, _, _, _, loadDescription_pets rfl, loadAliases_pets, ?_⟩
    change "pets".toList ∈ petsModel.operations.keys
    rw [petsModel_operations]
    exact List.mem_singleton_self _

/-- The one group of the pets is inside, and nothing outside changes. -/
theorem update_inside_output_of_pets :
    pets.files.WellNamed ∧ petsDirectory.IsProper ∧ PlansGroup {} petsDirectory pets "pets" ∧
      (∃ result, (update {} petsDirectory {} : Task (StateM Machine) UpdateResult).Ends pets result petsUpdated) ∧
      Path.Inside [] petsOutput (petsOutput.child "pets") ∧
      ∀ p, ¬["src".toList, "api".toList] <+: p → petsUpdated.files.contentAt? p = pets.files.contentAt? p := by
  have hnamed : pets.files.WellNamed := ⟨by decide, by decide⟩
  have hdirectory : petsDirectory.IsProper := by
    intro name hname
    cases hname
  have hplans : PlansGroup {} petsDirectory pets "pets" := plansGroup_pets_iff.2 rfl
  obtain ⟨result, hupdate⟩ := update_pets
  obtain ⟨-, -, -, hplaces, hnames, -⟩ := update_inside_output {} petsDirectory {} pets hnamed hdirectory
  have hinside := hnames _ hplans (by decide)
  refine ⟨hnamed, hdirectory, hplans, ⟨result, hupdate⟩, hinside, fun p hp => ?_⟩
  by_contra hchanged
  have hlinks : pets.files.HasNoLinks := .of_entries (by simp [pets, petsTree])
  rw [hupdate] at hplaces
  rcases hplaces hlinks p hchanged with hbelow | ⟨g, hg, houtside, -⟩
  · exact hp hbelow
  · obtain rfl := plansGroup_pets_iff.1 hg
    exact houtside hinside

/-! ### A group outside -/

/-- A description whose one category leads out of the output directory. -/
private def strayText : Text := "\x7b\"paths\":\x7b\"/pets\":\x7b\"get\":\x7b\"tags\":[\"../outside\"]\x7d\x7d\x7d\x7d"

private def strayDocument : Fields :=
  let operation : Value := .object [(.text "tags", .list [.scalar (.text "../outside")])]
  [(.text "paths", .object [(.text "/pets", .object [(.text "get", operation)])])]

private def strayTree (rest : List (Place × Entry)) : FileTree where
  here := []
  entries :=
    (["swagger.json"], .file (.text strayText)) :: (["src"], .directory) :: (["src", "api"], .directory) :: rest

private def stray : Machine where
  files := strayTree []

private def strayAliases : Aliases :=
  { mapping := [("../outside", "../outside")], discovered := ["../outside"] }

private def strayAliasFile : Place × Entry :=
  (["src", "api", "tag-mapping.json"], .file (.text (Json.write (Aliases.toValue strayAliases.mapping) ++ "\n")))

private def strayUpdated : Machine where
  files := strayTree
    [strayAliasFile, (["src", "outside"], .directory),
      (["src", "outside", "types.ts"], .file (.text (renderTypesFile {} [] [petsOperation "../outside"]))),
      (["src", "outside", "index.ts"], .file (.text (renderFunctionsFile {} [petsOperation "../outside"])))]

private theorem loadDescription_stray :
    (loadDescription petsDirectory "./swagger.json" : Task (StateM Machine) Fields).Ends stray strayDocument stray := by
  have hfind : stray.files.find true (petsDirectory / Path.ofText "./swagger.json") =
      .ok (["swagger.json".toList], some (.file (.text strayText))) := by cbv
  have hparse : parseDescription (petsDirectory / Path.ofText "./swagger.json").toText strayText =
      .ok strayDocument := by cbv
  exact ends_loadDescription_of_find (by decide) hfind (by decide) hparse

/-- An update writes files outside the output directory when a category of the description leads there. -/
theorem update_outside_output :
    (∃ result, (update {} petsDirectory {} : Task (StateM Machine) UpdateResult).Ends stray result strayUpdated) ∧
      stray.files.contentAt? ["src", "outside", "types.ts"] = none ∧
      strayUpdated.files.contentAt? ["src", "outside", "types.ts"] =
        some (.text (renderTypesFile {} [] [petsOperation "../outside"])) ∧
      petsOutput.placeFrom [] = ["src".toList, "api".toList] ∧
      ¬["src".toList, "api".toList] <+: ["src".toList, "outside".toList, "types.ts".toList] := by
  have haliases : (loadAliases petsOutput [] : Task (StateM Machine) Aliases).Ends stray {} stray := by
    unfold Ends
    cbv
  have hregister : Aliases.register {} (allTags strayDocument) = strayAliases := by cbv
  have hsaved : (saveAliases petsOutput strayAliases : Task (StateM Machine) Unit).Ends stray ()
      { files := strayTree [strayAliasFile] } := by
    unfold Ends
    cbv
  have hoperations : (plannedModel {} {} strayDocument).operations =
      [("../outside".toList, [petsOperation "../outside"])] := by cbv
  have htypes : (plannedModel {} {} strayDocument).allTypes = [] := by cbv
  have hgroup : (generateGroup {} petsOutput [] ("../outside", [petsOperation "../outside"]) :
      Task (StateM Machine) GroupResult).Ends { files := strayTree [strayAliasFile] }
        ⟨"../outside", .created, 1, 0⟩ strayUpdated := by
    unfold Ends
    cbv
  rw [← hregister] at hsaved
  obtain ⟨result, hupdate, -⟩ := update_of_group loadDescription_stray haliases hsaved hoperations htypes hgroup
  exact ⟨⟨result, hupdate⟩, rfl, rfl, rfl, by decide⟩

end ClientGen
