import ClientGen.Proofs.Project.Accidents
/-!
# The files that commands own

A check writes its report and nothing else. An update that removes nothing writes the file of aliases and the files of
the groups that it plans, or the file of aliases alone. A command that fails over its description or its settings leaves
all as it was.
-/

namespace ClientGen

open Text ClientGen.Task FileTree

variable {s : Settings} {output directory : Path} {m m' : Machine} {options : UpdateOptions} {now : Text} {e : Failure}

/-- The user is told that the description or the settings cannot be used. -/
def Failure.IsOfInput : Failure → Prop
  | .complaint c => c.OfDescription ∨ c.OfManifest
  | .accident _ => False

/-! ## Failures over the input -/

private theorem not_isOfInput {named : Text → Prop} (h : e.IsOf Complaint.OfOutput named m) : ¬e.IsOfInput := by
  cases e with
  | accident a => exact id
  | complaint c =>
    cases c with
    | output o => simp [Failure.IsOfInput, Complaint.OfDescription, Complaint.OfManifest]
    | description d => exact h.elim
    | manifest d => exact h.elim

theorem files_of_update_fails (h : (update s directory options : Task (StateM Machine) UpdateResult).Fails m e m')
    (he : e.IsOfInput) : m'.files = m.files := by
  have hof : (e.IsOf Complaint.OfDescription (fun _ => True) m ∧ m'.files = m.files) ∨
      e.IsOf Complaint.OfOutput (fun _ => True) m :=
    isOf_update (fun _ _ _ _ => trivial) (fun _ _ => trivial) (fun _ _ _ _ => trivial) h
  rcases hof with ⟨-, hfiles⟩ | hof
  · exact hfiles
  · exact absurd he (not_isOfInput hof)

theorem files_of_check_fails (h : (check s directory now : Task (StateM Machine) CheckResult).Fails m e m') :
    m'.files = m.files := by
  have hof : (e.IsOf Complaint.OfDescription (fun _ => True) m ∨ e.IsOf Complaint.OfOutput (fun _ => True) m) ∧
      m'.files = m.files :=
    isOf_check (fun _ _ _ _ => trivial) (fun _ _ => trivial) (fun _ _ _ _ => trivial) h
  exact hof.2

theorem files_of_execute_fails {r : CommandLine.Request}
    (h : (CommandLine.execute now r : Task (StateM Machine) Text).Fails m e m') (he : e.IsOfInput) :
    m'.files = m.files := by
  rcases CommandLine.isOf_execute h with ⟨-, hfiles⟩ | hof
  · exact hfiles
  · exact absurd he (not_isOfInput hof)

/-! ## Commands that end -/

theorem write_of_check_ends {result : CheckResult}
    (h : (check s directory now : Task (StateM Machine) CheckResult).Ends m result m') :
    m.files.write (directory.child changelogName) (.text result.report.changelog) = .ok m'.files := by
  unfold check at h
  obtain ⟨document, m₁, hdocument, h⟩ := ends_bind.1 h
  obtain ⟨given, m₂, hgiven, h⟩ := ends_bind.1 h
  obtain ⟨groups, m₃, hgroups, h⟩ := ends_bind.1 h
  obtain ⟨_, m₄, hwritten, h⟩ := ends_bind.1 h
  obtain ⟨rfl, rfl⟩ := ends_pure.1 h
  obtain ⟨files, hw, rfl⟩ := ends_writeText.1 hwritten
  have hfiles : m₃.files = m.files := by
    rw [(KeepsFiles.mapM (keepsFiles_checkGroup _ _ _) _).ends hgroups, (keepsFiles_loadAliases _ _).ends hgiven,
      (keepsFiles_loadDescription _ _).ends hdocument]
  exact hfiles ▸ hw

/-- The file of aliases is written, and nothing is removed. -/
private def aliasExtent (output : Path) : Extent where
  written path := path = output.child aliasFileName
  made path := path = output
  removed _ := False

private theorem onlyChanges_of_initOnly (h : options.initOnly = true) :
    OnlyChanges (· = (directory / Path.ofText s.output).child aliasFileName) m.files
      (m.run (update s directory options : Task (StateM Machine) UpdateResult).run).2.files := by
  -- The option to remove the output first means nothing when only aliases are written.
  have hclean : (update s directory options : Task (StateM Machine) UpdateResult) =
      update s directory { options with clean := false } := by
    unfold update
    simp [h]
  rw [hclean]
  have htouches : Touches (aliasExtent (directory / Path.ofText s.output))
      (update s directory { options with clean := false }) m := by
    apply touches_update_of rfl rfl
    · simp [h]
    · simp
  exact htouches.onlyChanges fun _ => id

/-- What is written when nothing is removed. -/
private def keepingExtent (output : Path) (planned : Text → Prop) : Extent :=
  { updateExtent output planned with removed := fun _ => False }

private theorem onlyChanges_of_keeping (h : options.clean = false) :
    OnlyChanges (updateExtent (directory / Path.ofText s.output) (PlansGroup s directory m)).written m.files
      (m.run (update s directory options : Task (StateM Machine) UpdateResult).run).2.files := by
  have htouches : Touches (keepingExtent (directory / Path.ofText s.output) (PlansGroup s directory m))
      (update s directory options) m := by
    refine touches_update_of (Or.inl rfl) (Or.inl rfl) (fun _ g hg => ?_) (by simp [h])
    exact ⟨Or.inr ⟨g, hg, rfl⟩, Or.inr ⟨g, hg, .inl rfl⟩, Or.inr ⟨g, hg, .inr rfl⟩⟩
  exact htouches.onlyChanges fun _ => id

private def vacant : Machine where
  files := { here := [], entries := [] }

/-- The description of the project is missing. -/
private def vacantFailure : Failure := DescriptionError.missing "swagger.json"

end ClientGen
