import ClientGen.CommandLine.Run
import ClientGen.Proofs.Project.Causes
/-!
# Accidents

A command that does not end fails with a complaint about what it was doing, or in an accident. Each accident has its
cause on the machine on which the command was run.
-/

namespace ClientGen

open Text ClientGen.Task FileTree

variable {named : Text → Prop} {told : Complaint → Prop} {m m' : Machine} {path output directory : Path} {s : Settings}
  {e : Failure}

/-! ## Commands that fail -/

/-- The paths that an update or a check looks up for a description, under given settings. -/
def UsesPath (s : Settings) (directory : Path) (m : Machine) (path : Path) : Prop :=
  (isRemote s.input = false ∧ path = directory / Path.ofText s.input) ∨
    path = directory / Path.ofText s.output ∨
    path = (directory / Path.ofText s.output).child aliasFileName ∨
    path = directory.child changelogName ∨
    ∃ g, PlansGroup s directory m g ∧ (path = (directory / Path.ofText s.output).child g ∨
      path = typesPath (directory / Path.ofText s.output) g ∨ path = functionsPath (directory / Path.ofText s.output) g)

section Commands

variable {options : UpdateOptions} {now : Text} (hclosed : IsClosed named)
  (hnamed : ∀ name, m.files.Mentions name → named name)
  (hused : ∀ path, UsesPath s directory m path → ∀ name ∈ path.names, named name)

theorem Machine.Warns.refl (m : Machine) : m.Warns m := ⟨[], by simp⟩

include hnamed hused

private theorem fails_load
    (h : (loadDescription directory s.input : Task (StateM Machine) Fields).Fails m e m') :
    e.IsOf Complaint.OfDescription named m :=
  (meets_loadDescription hnamed (fun hr => hused _ (.inl ⟨hr, rfl⟩)) m (.refl m)).2 e m' h

private theorem fails_loadAliases {document : Fields} {m₁ : Machine}
    (hd : (loadDescription directory s.input : Task (StateM Machine) Fields).Ends m document m₁)
    (h : (loadAliases (directory / Path.ofText s.output) s.tagMapping : Task (StateM Machine) Aliases).Fails m₁ e m') :
    e.IsOf Complaint.OfDescription named m := by
  have hwarns := (meets_loadDescription hnamed (fun hr => hused _ (.inl ⟨hr, rfl⟩)) m (.refl m)).1 _ _ hd
  have hnone := (meets_loadAliases hnamed (hused _ (.inr (.inr (.inl rfl)))) m₁ hwarns).2 e m' h
  exact hnone.mono fun _ => False.elim

include hclosed

/-- An update that fails before it has loaded everything leaves the files as they are; later it complains about the
output alone. -/
theorem isOf_update (h : (update s directory options : Task (StateM Machine) UpdateResult).Fails m e m') :
    (e.IsOf Complaint.OfDescription named m ∧ m'.files = m.files) ∨ e.IsOf Complaint.OfOutput named m := by
  have houtput := hused _ (.inr (.inl rfl))
  have haliases := hused _ (.inr (.inr (.inl rfl)))
  unfold update at h
  rcases fails_bind.1 h with h | ⟨document, m₁, hdocument, h⟩
  · exact .inl ⟨fails_load hnamed hused h, (keepsFiles_loadDescription _ _).fails h⟩
  have hfiles₁ := (keepsFiles_loadDescription _ _).ends hdocument
  rcases fails_bind.1 h with h | ⟨given, m₂, hgiven, h⟩
  · exact .inl ⟨fails_loadAliases hnamed hused hdocument h, ((keepsFiles_loadAliases _ _).fails h).trans hfiles₁⟩
  have hfiles₂ := ((keepsFiles_loadAliases _ _).ends hgiven).trans hfiles₁
  right
  have hstems : m.Stems named m₂ := .of_files hnamed hfiles₂
  have hgroups : Meets (m.Stems named) (fun _ => m.Stems named) (fun e _ => e.IsOf Complaint.OfOutput named m)
      ((plannedModel s given document).operations.mapM
        (generateGroup s (directory / Path.ofText s.output) (plannedModel s given document).allTypes)) := by
    apply Meets.mapM
    intro g hg
    have hplanned : PlansGroup s directory m g.1 := ⟨document, m₁, given, m₂, hdocument, hgiven, List.mem_map_of_mem hg⟩
    apply meets_generateGroup hclosed
    · exact hused _ (.inr (.inr (.inr (.inr ⟨g.1, hplanned, .inl rfl⟩))))
    · exact hused _ (.inr (.inr (.inr (.inr ⟨g.1, hplanned, .inr (.inl rfl)⟩))))
    · exact hused _ (.inr (.inr (.inr (.inr ⟨g.1, hplanned, .inr (.inr rfl)⟩))))
  refine (Meets.bind (K := fun _ _ => True) (meets_saveAliases hclosed houtput haliases) (fun _ => ?_) m₂ hstems).2 e
    m' h
  split
  · exact .pure fun _ _ => trivial
  split
  · apply Meets.bind (meets_clearOutput houtput _)
    intro _
    exact .bind hgroups fun _ => .pure fun _ _ => trivial
  · exact .bind hgroups fun _ => .pure fun _ _ => trivial

theorem isOf_check (h : (check s directory now : Task (StateM Machine) CheckResult).Fails m e m') :
    (e.IsOf Complaint.OfDescription named m ∨ e.IsOf Complaint.OfOutput named m) ∧ m'.files = m.files := by
  unfold check at h
  rcases fails_bind.1 h with h | ⟨document, m₁, hdocument, h⟩
  · exact ⟨.inl (fails_load hnamed hused h), (keepsFiles_loadDescription _ _).fails h⟩
  have hfiles₁ := (keepsFiles_loadDescription _ _).ends hdocument
  rcases fails_bind.1 h with h | ⟨given, m₂, hgiven, h⟩
  · exact ⟨.inl (fails_loadAliases hnamed hused hdocument h),
      ((keepsFiles_loadAliases _ _).fails h).trans hfiles₁⟩
  have hfiles₂ := ((keepsFiles_loadAliases _ _).ends hgiven).trans hfiles₁
  rcases fails_bind.1 h with h | ⟨groups, m₃, hgroups, h⟩
  · have hlooks : Meets (fun n => n.files = m.files) (fun _ n => n.files = m.files)
        (fun e _ => e.IsOf Complaint.OfOutput named m) ((plannedModel s given document).operations.mapM
          (checkGroup s (directory / Path.ofText s.output) (plannedModel s given document).allTypes)) := by
      have hI : ∀ n : Machine, n.files = m.files → Descends named m.files n.files :=
        fun n hn => ⟨fun _ _ hp => hn ▸ hp, hn ▸ hnamed⟩
      apply Meets.mapM
      intro g hg
      have hplanned : PlansGroup s directory m g.1 :=
        ⟨document, m₁, given, m₂, hdocument, hgiven, List.mem_map_of_mem hg⟩
      have htypes := hused _ (.inr (.inr (.inr (.inr ⟨g.1, hplanned, .inr (.inl rfl)⟩))))
      have hfunctions := hused _ (.inr (.inr (.inr (.inr ⟨g.1, hplanned, .inr (.inr rfl)⟩))))
      apply Meets.bind (meets_readOutput? hI htypes)
      intro types
      exact .bind (meets_readOutput? hI hfunctions) fun functions => .pure fun _ => id
    exact ⟨.inr ((hlooks m₂ hfiles₂).2 e m' h),
      ((KeepsFiles.mapM (keepsFiles_checkGroup _ _ _) _).fails h).trans hfiles₂⟩
  have hfiles₃ := ((KeepsFiles.mapM (keepsFiles_checkGroup _ _ _) _).ends hgroups).trans hfiles₂
  rcases fails_bind.1 h with h | ⟨_, m₄, -, h⟩
  · obtain rfl := fails_writeText h
    have houtput : Complaint.OfOutput (.output (.unwritable (directory.child changelogName).toText)) := trivial
    have hpath := hused _ (.inr (.inr (.inr (.inl rfl))))
    exact ⟨.inr ((meets_writeText hclosed hpath houtput m' (.of_files hnamed hfiles₃)).2 e m' h), hfiles₃⟩
  · exact absurd h fails_pure

end Commands

/-! ## Settings -/

section Settings

variable (hnamed : ∀ name, m.files.Mentions name → named name)
  (hpath : ∀ name ∈ (manifestPath directory).names, named name)
include hnamed hpath

private theorem meets_readManifest :
    Meets m.Warns (fun _ => m.Warns) (fun e _ => e.IsOf Complaint.OfManifest named m)
      (readManifest (manifestPath directory)) := by
  have hI := fun n => Machine.Warns.descends (m := n) hnamed
  unfold readManifest
  apply Meets.bind (J := fun t n => m.Warns n ∧ m.Gives t)
  · refine (meets_readText hI hpath trivial).mono ?_ fun _ _ => id
    rintro t n ⟨⟨ws, rfl⟩, p, u, hp, rfl⟩
    exact ⟨⟨ws, rfl⟩, .inl ⟨p, u, hp, rfl⟩⟩
  · intro t
    cases hread : Json.read t with
    | error r =>
      refine .throw fun n hn => ?_
      cases r with
      | malformed => trivial
      | tooManyDigits => exact .tooManyDigits hn.2 hread
    | ok v =>
      simp only [Except.mapError]
      split
      · next heq => cases heq
      · exact .pure fun _ hn => hn.1
      · exact .throw fun _ _ => trivial

private theorem meets_loadSettings :
    Meets m.Warns (fun _ => m.Warns) (fun e _ => e.IsOf Complaint.OfManifest named m) (loadSettings directory) := by
  have hI := fun n => Machine.Warns.descends (m := n) hnamed
  unfold loadSettings
  apply Meets.bind (meets_isFile hI hpath)
  intro b
  cases b with
  | false =>
    apply Meets.bind (meets_warn fun _ h => h.warned _)
    intro _
    exact .pure fun _ => id
  | true =>
    rw [if_pos rfl]
    apply Meets.bind (meets_readManifest hnamed hpath)
    intro fields
    dsimp only
    split
    · exact .pure fun _ => id
    · split
      · exact .pure fun _ => id
      · exact .throw fun _ _ => trivial

end Settings

private theorem keepsFiles_readManifest : KeepsFiles (readManifest path) := by
  unfold readManifest
  refine .bind keepsFiles_readText fun t => ?_
  split
  · exact .throw _
  · exact .pure _
  · exact .throw _

theorem keepsFiles_loadSettings (directory : Path) : KeepsFiles (loadSettings directory) := by
  unfold loadSettings
  refine .bind keepsFiles_isFile fun b => ?_
  cases b with
  | false => exact .bind keepsFiles_warn fun _ => .pure _
  | true =>
    refine .bind keepsFiles_readManifest fun fields => ?_
    dsimp only
    split
    · exact .pure _
    · split
      · exact .pure _
      · exact .throw _

theorem isOf_addSettings (hclosed : IsClosed named) (hnamed : ∀ name, m.files.Mentions name → named name)
    (hpath : ∀ name ∈ (manifestPath directory).names, named name)
    (h : (addSettings directory : Task (StateM Machine) Bool).Fails m e m') :
    e.IsOf Complaint.OfManifest named m ∧ m'.files = m.files := by
  have hI := fun n => Machine.Warns.descends (m := n) hnamed
  unfold addSettings at h
  rcases fails_bind.1 h with h | ⟨b, m₁, hb, h⟩
  · exact ⟨(meets_isFile hI hpath m (.refl m)).2 e m' h, keepsFiles_isFile.fails h⟩
  obtain ⟨-, rfl⟩ := ends_isFile.1 hb
  cases b with
  | false =>
    obtain ⟨rfl, rfl⟩ := fails_throw.1 h
    exact ⟨trivial, rfl⟩
  | true =>
    rw [if_pos rfl] at h
    rcases fails_bind.1 h with h | ⟨fields, m₂, hfields, h⟩
    · exact ⟨(meets_readManifest hnamed hpath m (.refl m)).2 e m' h, keepsFiles_readManifest.fails h⟩
    have hfiles := keepsFiles_readManifest.ends hfields
    dsimp only at h
    split at h
    · exact absurd h fails_pure
    · rcases fails_bind.1 h with h | ⟨_, m₃, -, h⟩
      · obtain rfl := fails_writeText h
        exact ⟨(meets_writeText hclosed hpath trivial m' (.of_files hnamed hfiles)).2 e m' h, hfiles⟩
      · exact absurd h fails_pure

/-! ## The command line -/

namespace CommandLine

/-- The paths that a command looks up: that of the manifest, and those that its settings ask for. -/
def Request.Uses (r : Request) (m : Machine) (path : Path) : Prop :=
  path = manifestPath (Path.ofText r.directory) ∨
    ∃ s m₁, (loadSettings (Path.ofText r.directory) : Task (StateM Machine) Settings).Ends m s m₁ ∧
      UsesPath s (Path.ofText r.directory) m₁ path

/-- The names of the paths that a command looks up, and those in the links and the places of the machine. -/
def Request.Names (r : Request) (m : Machine) (name : Text) : Prop :=
  m.files.Mentions name ∨ ∃ path, r.Uses m path ∧ name ∈ path.names

variable {r : Request} {now : Text}

private theorem Request.Uses.isProper (h : r.Uses m path) : path.IsProper := by
  have hdirectory : (Path.ofText r.directory).IsProper := Path.isProper_ofText _
  rcases h with rfl | ⟨s, m₁, -, ⟨-, rfl⟩ | rfl | rfl | rfl | ⟨g, -, rfl | rfl | rfl⟩⟩
  · exact hdirectory.child _
  · exact hdirectory.join (Path.isProper_ofText _)
  · exact hdirectory.join (Path.isProper_ofText _)
  · exact (hdirectory.join (Path.isProper_ofText _)).child _
  · exact hdirectory.child _
  · exact (hdirectory.join (Path.isProper_ofText _)).child _
  · exact ((hdirectory.join (Path.isProper_ofText _)).child _).child _
  · exact ((hdirectory.join (Path.isProper_ofText _)).child _).child _

private theorem names_ofText {name : Text} (h : IsPathName name) : (Path.ofText name).names = [name] := by
  simp [Path.ofText, splitOn_of_notMem h.2.2, h.1, h.2.1]

private theorem isClosed_names (r : Request) (m : Machine) : IsClosed (r.Names m) := by
  intro final hfinal name hname
  have hproper : IsPathName final := by
    rcases hfinal with (⟨p, target, -, hmem⟩ | ⟨e, -, last, -, hmem⟩) | ⟨path, hpath, hmem⟩
    · exact Path.isProper_ofText _ final hmem
    · exact Path.isProper_ofText _ final hmem
    · exact hpath.isProper final hmem
  rw [names_ofText hproper] at hname
  exact List.mem_singleton.1 hname ▸ hfinal

private theorem isOf_of_warns {m₁ : Machine} (hm : m.Warns m₁) (h : e.IsOf told named m₁) : e.IsOf told named m := by
  obtain ⟨ws, rfl⟩ := hm
  cases e with
  | complaint c => exact h
  | accident a =>
    cases h with
    | notText h => exact .notText h
    | tooManyDigits ht h => exact .tooManyDigits ht h
    | value ht h he => exact .value ht h he
    | file h => exact .file h

/-- A command that fails has changed nothing, or complains about the output, or met with an accident that has its
cause on the machine. -/
theorem isOf_execute (h : (execute now r : Task (StateM Machine) Text).Fails m e m') :
    (e.IsOf (fun c => c.OfDescription ∨ c.OfManifest ∨ c.OfOutput) (r.Names m) m ∧ m'.files = m.files) ∨
      e.IsOf Complaint.OfOutput (r.Names m) m := by
  have hnamed : ∀ name, m.files.Mentions name → r.Names m name := fun _ => .inl
  have hmanifest : ∀ name ∈ (manifestPath (Path.ofText r.directory)).names, r.Names m name :=
    fun name hname => .inr ⟨_, .inl rfl, hname⟩
  have hfail {m₁ : Machine}
      (h : (loadSettings (Path.ofText r.directory) : Task (StateM Machine) Settings).Fails m e m₁) :
      e.IsOf (fun c => c.OfDescription ∨ c.OfManifest ∨ c.OfOutput) (r.Names m) m ∧ m₁.files = m.files :=
    ⟨((meets_loadSettings hnamed hmanifest m (.refl m)).2 e m₁ h).mono fun _ hc => .inr (.inl hc),
      (keepsFiles_loadSettings _).fails h⟩
  unfold execute at h
  dsimp only at h
  split at h
  · -- the initial settings: only the manifest is read
    rcases fails_bind.1 h with h | ⟨added, m₁, -, h⟩
    · obtain ⟨he, hfiles⟩ := isOf_addSettings (isClosed_names r m) hnamed hmanifest h
      exact .inl ⟨he.mono fun _ hc => .inr (.inl hc), hfiles⟩
    · exact absurd h fails_pure
  · -- an update: what fails behind the settings names what they lead to
    rcases fails_bind.1 h with h | ⟨s, m₁, hs, h⟩
    · exact .inl (hfail h)
    have hfiles := (keepsFiles_loadSettings _).ends hs
    have hwarns := (meets_loadSettings hnamed hmanifest m (.refl m)).1 s m₁ hs
    rcases fails_bind.1 h with h | ⟨result, m₂, -, h⟩
    · have hupdate := isOf_update (isClosed_names r m) (hfiles ▸ hnamed)
        (fun path hpath name hname => .inr ⟨path, .inr ⟨s, m₁, hs, hpath⟩, hname⟩) h
      rcases hupdate with ⟨he, hsame⟩ | he
      · exact .inl ⟨(isOf_of_warns hwarns he).mono fun _ hc => .inl hc, hsame.trans hfiles⟩
      · exact .inr (isOf_of_warns hwarns he)
    · exact absurd h fails_pure
  · -- a check
    rcases fails_bind.1 h with h | ⟨s, m₁, hs, h⟩
    · exact .inl (hfail h)
    have hfiles := (keepsFiles_loadSettings _).ends hs
    have hwarns := (meets_loadSettings hnamed hmanifest m (.refl m)).1 s m₁ hs
    rcases fails_bind.1 h with h | ⟨result, m₂, -, h⟩
    · obtain ⟨he, hsame⟩ := isOf_check (isClosed_names r m) (hfiles ▸ hnamed)
        (fun path hpath name hname => .inr ⟨path, .inr ⟨s, m₁, hs, hpath⟩, hname⟩) h
      refine .inl ⟨isOf_of_warns hwarns ?_, hsame.trans hfiles⟩
      rcases he with he | he
      · exact he.mono fun _ hc => .inl hc
      · exact he.mono fun _ hc => .inr (.inr hc)
    · exact absurd h fails_pure

private theorem exists_ends_bind {α β : Type} {x : Task (StateM Machine) α} {f : α → Task (StateM Machine) β} {a : α}
    (hx : x.Ends m a m') (h : ∃ b m₂, (f a).Ends m' b m₂) : ∃ b m₂, (x >>= f).Ends m b m₂ := by
  obtain ⟨b, m₂, h⟩ := h
  exact ⟨b, m₂, ends_bind.2 ⟨a, m', hx, h⟩⟩

/-- The file of aliases gives a table unless its bytes are no text, an integer in it has too many digits, or it cannot
be looked up. -/
theorem exists_ends_readAliasFile_iff :
    (∃ mapping m', (readAliasFile output : Task (StateM Machine) (Table Text)).Ends m mapping m') ↔
      m.files.isFile (output.child aliasFileName) = .ok false ∨
        ∃ u, m.files.read (output.child aliasFileName) = .ok (.text u) ∧
          Json.read (unifyLineEnds u) ≠ .error .tooManyDigits := by
  have hread (m : Machine) : m.run (liftM (Host.read (output.child aliasFileName) :
      StateM Machine (Except FileError Content)) : Task (StateM Machine) _).run =
        (.ok (m.files.read (output.child aliasFileName)), m) := rfl
  unfold readAliasFile
  constructor
  · rintro ⟨mapping, m', h⟩
    obtain ⟨b, m₁, hb, h⟩ := ends_bind.1 h
    obtain ⟨hfile, rfl⟩ := ends_isFile.1 hb
    cases b with
    | false => exact .inl hfile
    | true =>
      obtain ⟨p, c, hf⟩ := isFile_eq_true_iff.1 hfile
      have hc := read_eq_ok_iff.2 ⟨p, hf⟩
      obtain ⟨r, m₂, hr, h⟩ := ends_bind.1 h
      obtain ⟨rfl, rfl⟩ := Ends.unique hr (hread m)
      rw [hc] at h
      cases c with
      | bytes bs => exact absurd h ends_throw
      | text u =>
        refine .inr ⟨u, hc, fun hdigits => ?_⟩
        simp only [hdigits] at h
        exact absurd h ends_throw
  · rintro (hfile | ⟨u, hu, hdigits⟩)
    · exact ⟨[], m, ends_bind.2 ⟨false, m, ends_isFile.2 ⟨hfile, rfl⟩, ends_pure.2 ⟨rfl, rfl⟩⟩⟩
    · obtain ⟨p, hf⟩ := read_eq_ok_iff.1 hu
      have hfile := isFile_eq_true_iff.2 ⟨p, _, hf⟩
      have hwarn {w : Warning} :
          (do warn w; return [] : Task (StateM Machine) (Table Text)).Ends m [] (m.warned [w]) :=
        ends_bind.2 ⟨(), _, ends_warn.2 rfl, ends_pure.2 ⟨rfl, rfl⟩⟩
      refine exists_ends_bind (ends_isFile.2 ⟨hfile, rfl⟩) (exists_ends_bind (hread m) ?_)
      rw [hu]
      dsimp only
      split
      · next h => exact absurd h hdigits
      · exact ⟨_, _, hwarn⟩
      · exact ⟨_, _, ends_pure.2 ⟨rfl, rfl⟩⟩
      · exact ⟨_, _, hwarn⟩

private theorem run_of_request {arguments : List Text} (hr : read arguments = .run r) :
    m.run (run now arguments : StateM Machine (Except Accident Ending)) =
      match m.run (execute now r : Task (StateM Machine) Text).run with
      | (.ok output, m') => (.ok ⟨0, output, none⟩, m')
      | (.error (.complaint c), m') => (.ok ⟨2, [], some c⟩, m')
      | (.error (.accident a), m') => (.error a, m') := by
  unfold run
  rw [hr]
  dsimp only
  rw [Machine.run_bind]
  rcases m.run (execute now r : Task (StateM Machine) Text).run with ⟨(c | a) | output, m'⟩
  · rfl
  · rfl
  · rfl

/-- A project whose file of aliases holds a byte that begins no character. -/
private def damaged : Machine where
  files :=
    { here := []
      entries :=
        [(["swagger.json"], .file (.text "\x7b\x7d")), (["src"], .directory), (["src", "api"], .directory),
          (["src", "api", "tag-mapping.json"], .file (.bytes [255]))] }

private theorem run_damaged :
    (damaged.run (run "2026-01-01" ["update"] : StateM Machine (Except Accident Ending))).1 = .error .notText := by
  decide +kernel

end CommandLine

end ClientGen
