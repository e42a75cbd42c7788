import ClientGen.Project.Manifest
import ClientGen.Proofs.Files.Rewriting
import ClientGen.Proofs.Project.Conditions
import ClientGen.Proofs.Project.LineEnds
/-!
# The initial settings

The section with the initial settings goes behind the members of a manifest, once, and gives the default settings. A
manifest that is not there or that denotes no object stays as it is.
-/

namespace ClientGen

open Text ClientGen.Task

variable {m m' : Machine} {path directory : Path} {p : Place} {fields : Fields} {e : Failure}

/-! ## Manifests -/

/-- The manifest in a directory is the file at a place, and its text denotes an object. -/
def HoldsManifest (directory : Path) (p : Place) (fields : Fields) (m : Machine) : Prop :=
  ∃ t, m.files.find true (manifestPath directory) = .ok (p, some (.file (.text t))) ∧
    Json.read (unifyLineEnds t) = .ok (.object fields)

/-- Why there is no manifest to add settings to, and how a task fails for it. -/
inductive NoManifest (directory : Path) (m : Machine) : Failure → Prop
  | missing (h : m.files.isFile (manifestPath directory) = .ok false) :
    NoManifest directory m (ManifestError.missing directory.toText)
  | malformed {t : Text} (h : m.files.read (manifestPath directory) = .ok (.text t))
    (hjson : Json.read (unifyLineEnds t) = .error .malformed) :
    NoManifest directory m (ManifestError.malformed (manifestPath directory).toText)
  | notObject {t : Text} {v : Value} (h : m.files.read (manifestPath directory) = .ok (.text t))
    (hjson : Json.read (unifyLineEnds t) = .ok v) (hv : v.fields? = none) :
    NoManifest directory m (ManifestError.notObject (manifestPath directory).toText)
  | notText {bytes : List UInt8} (h : m.files.read (manifestPath directory) = .ok (.bytes bytes)) :
    NoManifest directory m Accident.notText
  | tooManyDigits {t : Text} (h : m.files.read (manifestPath directory) = .ok (.text t))
    (hjson : Json.read (unifyLineEnds t) = .error .tooManyDigits) :
    NoManifest directory m Accident.tooManyDigits
  | lookup {e : FileError} (h : m.files.isFile (manifestPath directory) = .error e) :
    NoManifest directory m (Accident.file e)

namespace HoldsManifest

theorem isFile (h : HoldsManifest directory p fields m) :
    m.files.isFile (manifestPath directory) = .ok true := by
  obtain ⟨t, hfind, -⟩ := h
  exact FileTree.isFile_eq_true_iff.2 ⟨p, _, hfind⟩

theorem ends_readManifest (h : HoldsManifest directory p fields m) :
    (readManifest (manifestPath directory) : Task (StateM Machine) Fields).Ends m fields m := by
  obtain ⟨t, hfind, hjson⟩ := h
  unfold readManifest
  refine ends_bind.2 ⟨_, m, ends_readText.2 ⟨t, FileTree.read_eq_ok_iff.2 ⟨p, hfind⟩, rfl, rfl⟩, ?_⟩
  rw [hjson]
  exact ends_pure.2 ⟨rfl, rfl⟩

end HoldsManifest

/-! ## The section -/

private theorem isJson_textList (ts : List Text) : Json.IsJson (Settings.textList ts) := by
  refine .list fun v hv => ?_
  obtain ⟨t, -, rfl⟩ := List.mem_map.1 hv
  exact .scalar trivial

theorem isJson_initialFields : Json.IsJson (.object Settings.initialFields) := by
  have hentries : ∀ e ∈ Settings.initialFields, (∃ t, e.1 = .text t) ∧ Json.IsJson e.2 := by
    intro e he
    simp only [Settings.initialFields, Settings.toFields, List.map_cons, List.map_nil, List.take_succ_cons,
      List.take_zero, List.mem_cons, List.not_mem_nil, or_false] at he
    rcases he with rfl | rfl | rfl | rfl | rfl | rfl | rfl
    · exact ⟨⟨_, rfl⟩, .scalar trivial⟩
    · exact ⟨⟨_, rfl⟩, .scalar trivial⟩
    · exact ⟨⟨_, rfl⟩, .scalar trivial⟩
    · exact ⟨⟨_, rfl⟩, .scalar trivial⟩
    · exact ⟨⟨_, rfl⟩, .scalar trivial⟩
    · exact ⟨⟨_, rfl⟩, isJson_textList _⟩
    · exact ⟨⟨_, rfl⟩, isJson_textList _⟩
  have hdistinct : Settings.initialFields.Distinct := by
    unfold Fields.Distinct
    decide +kernel
  exact .object (fun e he => (hentries e he).1) hdistinct fun e he => (hentries e he).2

theorem ofFields_initialFields : Settings.ofFields Settings.initialFields = .ok {} := by
  cbv

/-- The members of a manifest with the section behind them. -/
def withSection (fields : Fields) : Fields := fields ++ [(.text sectionName, .object Settings.initialFields)]

theorem put_section (h : fields.get? sectionName = none) :
    fields.put (.text sectionName) (.object Settings.initialFields) = withSection fields :=
  Fields.put_of_forall (Fields.find?_eq_none_iff.1 h) _

theorem get?_withSection (h : fields.get? sectionName = none) :
    (withSection fields).get? sectionName = some (.object Settings.initialFields) := by
  rw [withSection, Fields.get?_append, h, Option.none_or, Fields.get?_cons, if_pos rfl]

theorem isJson_withSection (hjson : Json.IsJson (.object fields)) (h : fields.get? sectionName = none) :
    Json.IsJson (.object (withSection fields)) := by
  cases hjson with
  | object hkeys hdistinct hvalues =>
    refine .object ?_ (put_section h ▸ hdistinct.put _ _) ?_
    · intro e he
      rcases List.mem_append.1 he with he | he
      · exact hkeys e he
      · rw [List.mem_singleton.1 he]
        exact ⟨_, rfl⟩
    · intro e he
      rcases List.mem_append.1 he with he | he
      · exact hvalues e he
      · rw [List.mem_singleton.1 he]
        exact isJson_initialFields

/-! ## Adding the section -/

/-- The machine with a text in the place of a file. -/
def Machine.withText (m : Machine) (p : Place) (t : Text) : Machine :=
  { m with files := m.files.put p (.file (.text t)) }

/-- The text of a manifest to which the section is added. -/
def initializedText (fields : Fields) : Text := Json.write (.object (withSection fields)) ++ "\n"

namespace HoldsManifest

private theorem write_eq (h : HoldsManifest directory p fields m) (t : Text) :
    m.files.write (manifestPath directory) (.text t) = .ok (m.files.put p (.file (.text t))) := by
  obtain ⟨old, hfind, -⟩ := h
  exact FileTree.write_eq_ok_iff.2 ⟨p, .inr ⟨_, hfind⟩, rfl⟩

theorem ends_addSettings (h : HoldsManifest directory p fields m) (hnone : fields.get? sectionName = none) :
    (addSettings directory : Task (StateM Machine) Bool).Ends m true (m.withText p (initializedText fields)) := by
  have hwrite := h.write_eq (initializedText fields)
  unfold addSettings
  refine ends_bind.2 ⟨true, m, ends_isFile.2 ⟨h.isFile, rfl⟩, ends_bind.2 ⟨fields, m, h.ends_readManifest, ?_⟩⟩
  rw [hnone, put_section hnone]
  exact ends_bind.2 ⟨(), _, ends_writeText.2 ⟨_, hwrite, rfl⟩, ends_pure.2 ⟨rfl, rfl⟩⟩

theorem withText (h : HoldsManifest directory p fields m) (hnone : fields.get? sectionName = none) :
    HoldsManifest directory p (withSection fields) (m.withText p (initializedText fields)) := by
  obtain ⟨t, hfind, hjson⟩ := h
  obtain ⟨q, hq, -, -, hfind', -⟩ := FileTree.write_put (write_eq ⟨t, hfind, hjson⟩ (initializedText fields))
  have hqp : q = p := by
    rcases hq with hq | ⟨old, hq⟩
    · cases hfind.symm.trans hq
    · exact (Prod.mk.inj (Except.ok.inj (hq.symm.trans hfind))).1
  exact ⟨initializedText fields, hqp ▸ hfind', Json.read_written (isJson_withSection (Json.isJson_of_read hjson) hnone)⟩

theorem ends_addSettings_again (h : HoldsManifest directory p fields m)
    (hsome : (fields.get? sectionName).isSome = true) :
    (addSettings directory : Task (StateM Machine) Bool).Ends m false m := by
  unfold addSettings
  refine ends_bind.2 ⟨true, m, ends_isFile.2 ⟨h.isFile, rfl⟩, ends_bind.2 ⟨fields, m, h.ends_readManifest, ?_⟩⟩
  rw [if_pos hsome]
  exact ends_pure.2 ⟨rfl, rfl⟩

theorem ends_loadSettings (h : HoldsManifest directory p fields m)
    (hsection : fields.get? sectionName = some (.object Settings.initialFields)) :
    (loadSettings directory : Task (StateM Machine) Settings).Ends m {} m := by
  unfold loadSettings
  refine ends_bind.2 ⟨true, m, ends_isFile.2 ⟨h.isFile, rfl⟩, ends_bind.2 ⟨fields, m, h.ends_readManifest, ?_⟩⟩
  rw [hsection]
  have hsettings : settingsOfSection (manifestPath directory) (.object Settings.initialFields) = .ok {} := by
    rw [settingsOfSection, ofFields_initialFields]
    rfl
  simp only [Value.isNull, Bool.not_false, Option.filter_some, if_true, hsettings]
  exact ends_pure.2 ⟨rfl, rfl⟩

end HoldsManifest

/-! ## Manifests that denote no object -/

private theorem isFile_of_read {c : Content} (h : m.files.read path = .ok c) : m.files.isFile path = .ok true :=
  FileTree.isFile_eq_true_iff.2 ((FileTree.read_eq_ok_iff.1 h).imp fun _ hfind => ⟨c, hfind⟩)

private theorem fails_of_readManifest {c : Content} (h : m.files.read (manifestPath directory) = .ok c)
    (hfails : (readManifest (manifestPath directory) : Task (StateM Machine) Fields).Fails m e m) :
    (addSettings directory : Task (StateM Machine) Bool).Fails m e m := by
  unfold addSettings
  exact fails_bind.2 (.inr ⟨true, m, ends_isFile.2 ⟨isFile_of_read h, rfl⟩, fails_bind.2 (.inl hfails)⟩)

private theorem fails_readManifest_of_text {t : Text} (h : m.files.read path = .ok (.text t))
    (hfails : ∀ fields, Json.read (unifyLineEnds t) ≠ .ok (.object fields)) :
    (readManifest path : Task (StateM Machine) Fields).Fails m
      (match Json.read (unifyLineEnds t) with
        | .error r => r.failure (ManifestError.malformed path.toText)
        | .ok _ => ManifestError.notObject path.toText) m := by
  unfold readManifest
  refine fails_bind.2 (.inr ⟨_, m, ends_readText.2 ⟨t, h, rfl, rfl⟩, ?_⟩)
  cases hjson : Json.read (unifyLineEnds t) with
  | error r => exact fails_throw.2 ⟨rfl, rfl⟩
  | ok v =>
    cases v with
    | object fields => exact absurd hjson (hfails fields)
    | scalar | list | pair | set => exact fails_throw.2 ⟨rfl, rfl⟩

theorem NoManifest.fails (h : NoManifest directory m e) :
    (addSettings directory : Task (StateM Machine) Bool).Fails m e m := by
  cases h with
  | missing h =>
    unfold addSettings
    exact fails_bind.2 (.inr ⟨false, m, ends_isFile.2 ⟨h, rfl⟩, fails_throw.2 ⟨rfl, rfl⟩⟩)
  | malformed h hjson =>
    have hfails := fails_readManifest_of_text h (by simp [hjson])
    rw [hjson] at hfails
    exact fails_of_readManifest h hfails
  | notObject h hjson hv =>
    have hfails := fails_readManifest_of_text h fun fields hfields => by
      cases hjson.symm.trans hfields
      cases hv
    rw [hjson] at hfails
    exact fails_of_readManifest h hfails
  | notText h =>
    refine fails_of_readManifest h ?_
    unfold readManifest readText
    exact fails_bind.2 (.inl (fails_bind.2 (.inr ⟨_, m, ends_attempt.2 (Prod.ext h rfl), fails_throw.2 ⟨rfl, rfl⟩⟩)))
  | tooManyDigits h hjson =>
    have hfails := fails_readManifest_of_text h (by simp [hjson])
    rw [hjson] at hfails
    exact fails_of_readManifest h hfails
  | lookup h =>
    unfold addSettings
    exact fails_bind.2 (.inl (fails_attempt.2 ⟨_, Prod.ext h rfl, rfl⟩))

theorem holdsManifest_or_noManifest (directory : Path) (m : Machine) :
    (∃ p fields, HoldsManifest directory p fields m) ∨ ∃ e, NoManifest directory m e := by
  cases hfile : m.files.isFile (manifestPath directory) with
  | error e => exact .inr ⟨_, .lookup hfile⟩
  | ok b =>
    cases b with
    | false => exact .inr ⟨_, .missing hfile⟩
    | true =>
      obtain ⟨p, c, hfind⟩ := FileTree.isFile_eq_true_iff.1 hfile
      have hread := FileTree.read_eq_ok_iff.2 ⟨p, hfind⟩
      cases c with
      | bytes bytes => exact .inr ⟨_, .notText hread⟩
      | text t =>
        cases hjson : Json.read (unifyLineEnds t) with
        | error r =>
          cases r with
          | malformed => exact .inr ⟨_, .malformed hread hjson⟩
          | tooManyDigits => exact .inr ⟨_, .tooManyDigits hread hjson⟩
        | ok v =>
          cases v with
          | object fields => exact .inl ⟨p, fields, t, hfind, hjson⟩
          | scalar | list | pair | set => exact .inr ⟨_, .notObject hread hjson rfl⟩

theorem fails_addSettings_iff :
    (addSettings directory : Task (StateM Machine) Bool).Fails m e m' ↔ NoManifest directory m e ∧ m' = m := by
  constructor
  · intro h
    rcases holdsManifest_or_noManifest directory m with ⟨p, fields, hholds⟩ | ⟨e', hno⟩
    · cases hsection : fields.get? sectionName with
      | none => cases (hholds.ends_addSettings hsection).symm.trans h
      | some v => cases (hholds.ends_addSettings_again (by rw [hsection]; rfl)).symm.trans h
    · obtain ⟨he, rfl⟩ := Prod.mk.inj (hno.fails.symm.trans h)
      exact ⟨Except.error.inj he ▸ hno, rfl⟩
  · rintro ⟨hno, rfl⟩
    exact hno.fails

/-! ## Once -/

/-- Where a directory has a manifest without the section, the section is added behind its members, with their values and
in their order, the settings of the directory are then the default ones, and however often more the section is added,
nothing happens. Elsewhere nothing is added or changed, and the failure says why there is no manifest. -/
theorem settings_are_added_once (directory : Path) (m : Machine) :
    (∀ p fields, HoldsManifest directory p fields m → fields.get? sectionName = none →
      ∃ t, (addSettings directory : Task (StateM Machine) Bool).Ends m true (m.withText p t) ∧
        HoldsManifest directory p (fields ++ [(.text sectionName, .object Settings.initialFields)]) (m.withText p t) ∧
        (loadSettings directory : Task (StateM Machine) Settings).Ends (m.withText p t) {} (m.withText p t) ∧
        ∀ n, ((List.replicate n directory).mapM addSettings : Task (StateM Machine) (List Bool)).Ends (m.withText p t)
          (List.replicate n false) (m.withText p t)) ∧
    ∀ e m', (addSettings directory : Task (StateM Machine) Bool).Fails m e m' ↔ NoManifest directory m e ∧ m' = m := by
  refine ⟨fun p fields h hnone => ?_, fun e m' => fails_addSettings_iff⟩
  have hadded := h.withText hnone
  have hsection := get?_withSection hnone
  refine ⟨initializedText fields, h.ends_addSettings hnone, hadded, hadded.ends_loadSettings hsection, fun n => ?_⟩
  have hagain : ∀ d ∈ List.replicate n directory, (addSettings d : Task (StateM Machine) Bool).Ends
      (m.withText p (initializedText fields)) false (m.withText p (initializedText fields)) := by
    intro d hd
    rw [List.eq_of_mem_replicate hd]
    exact hadded.ends_addSettings_again (by rw [hsection]; rfl)
  simpa only [List.map_replicate] using ends_mapM_of_forall (r := fun _ => false) hagain

/-- A machine that has at most one file, a manifest with the given content. -/
private def manifestOnly (c : Option Content) : Machine where
  files := { here := [], entries := c.toList.map fun c => (["package.json"], Entry.file c) }

private def demoText : Text := "\x7b\"name\": \"demo\", \"private\": true, \"ports\": [80, -1]\x7d"

private def demoFields : Fields :=
  [(.text "name", .scalar (.text "demo")), (.text "private", .scalar (.bool true)),
    (.text "ports", .list [.scalar (.int 80), .scalar (.int (-1))])]

/-- A manifest with three members gets the section as its fourth. Where there is no manifest, the user is told so. -/
theorem settings_are_added_once_to_demo :
    (HoldsManifest (Path.ofText ".") ["package.json"] demoFields (manifestOnly (some (.text demoText))) ∧
      demoFields.get? sectionName = none ∧
      ∃ t, (addSettings (Path.ofText ".") : Task (StateM Machine) Bool).Ends (manifestOnly (some (.text demoText))) true
        (manifestOnly (some (.text t)))) ∧
    NoManifest (Path.ofText ".") (manifestOnly none) (ManifestError.missing ".") ∧
    (addSettings (Path.ofText ".") : Task (StateM Machine) Bool).Fails (manifestOnly none) (ManifestError.missing ".")
      (manifestOnly none) := by
  have hholds : HoldsManifest (Path.ofText ".") ["package.json"] demoFields (manifestOnly (some (.text demoText))) :=
    ⟨demoText, by decide +kernel, by cbv⟩
  have hnone : demoFields.get? sectionName = none := by cbv
  have hmissing : NoManifest (Path.ofText ".") (manifestOnly none) (ManifestError.missing ".") :=
    .missing (by decide +kernel)
  obtain ⟨t, hadds, -⟩ := (settings_are_added_once (Path.ofText ".") _).1 _ _ hholds hnone
  exact ⟨⟨hholds, hnone, t, hadds⟩, hmissing, ((settings_are_added_once (Path.ofText ".") _).2 _ _).2 ⟨hmissing, rfl⟩⟩

/-- Bytes that are no text denote no object, and instead of being told so, the user of such a manifest meets with an
accident. -/
theorem addSettings_fails_of_undecodable :
    (¬∃ p fields, HoldsManifest (Path.ofText ".") p fields (manifestOnly (some (.bytes [255])))) ∧
    ¬∃ (e : ManifestError) (m' : Machine),
      (addSettings (Path.ofText ".") : Task (StateM Machine) Bool).Fails (manifestOnly (some (.bytes [255]))) e m' := by
  have hfind : (manifestOnly (some (.bytes [255]))).files.find true (manifestPath (Path.ofText ".")) =
      .ok (["package.json"], some (.file (.bytes [255]))) := by decide +kernel
  constructor
  · rintro ⟨p, fields, t, hfind', -⟩
    cases hfind.symm.trans hfind'
  · rintro ⟨e, m', h⟩
    have hno : NoManifest (Path.ofText ".") (manifestOnly (some (.bytes [255]))) Accident.notText :=
      .notText (FileTree.read_eq_ok_iff.2 ⟨_, hfind⟩)
    cases hno.fails.symm.trans h

end ClientGen
