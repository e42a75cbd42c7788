import ClientGen.Proofs.Files.Lookups
import ClientGen.Proofs.Project.AliasTable
import ClientGen.Proofs.Project.Extent
/-!
# Aliases that an update keeps

An update leaves the table of the file of aliases as saving it made it, as long as the file is none of those that are
generated and nothing on the way to it is removed. Without links this is so.
-/

namespace ClientGen

open Text ClientGen.Task FileTree

variable {s : Settings} {output directory path : Path} {options : UpdateOptions} {result : UpdateResult}
  {m m' : Machine} {table : Table Text} {types : List NamedType} {groups : List (Text × List Operation)}

/-! ## Removing the output -/

private theorem ends_removeOutput {u : Unit} (h : (removeOutput path : Task (StateM Machine) Unit).Ends m u m') :
    m.files.remove path = .ok m'.files := by
  have hrun := ends_attempt.1 h
  change Machine.change (fun files => files.remove path) m = _ at hrun
  unfold Machine.change at hrun
  split at hrun
  · next hr =>
    obtain ⟨-, rfl⟩ := Prod.mk.inj hrun
    exact hr
  · cases hrun

/-- Of the tree `t`, entries of a directory were removed, and nothing on the way of a path. -/
private structure Cleared (t t' : FileTree) (directory : Path) (keep : Text) (path : Path) : Prop where
  shrinks : Shrinks t t'
  way_eq : t.SparesWay directory keep path → ∀ q ∈ t.placesOn true path, t'.get? q = t.get? q

private theorem cleared_forM {t : FileTree} {keep : Text} {names listed : List Text} {u : Unit}
    (hlisted : t.names output = .ok listed) (hnames : ∀ name ∈ names, name ∈ listed ∧ name ≠ keep)
    (hm : Cleared t m.files output keep path)
    (h : (names.forM fun name => removeOutput (output.child name) : Task (StateM Machine) Unit).Ends m u m') :
    Cleared t m'.files output keep path := by
  induction names generalizing m with
  | nil =>
    obtain ⟨-, rfl⟩ := ends_pure.1 h
    exact hm
  | cons name names ih =>
    obtain ⟨_, m₁, hfirst, hrest⟩ := ends_bind.1 h
    obtain ⟨hshrinks, d, e, hf, hsame⟩ := remove_shrinks (ends_removeOutput hfirst)
    refine ih (fun n hn => hnames n (List.mem_cons_of_mem _ hn)) ⟨hm.shrinks.trans hshrinks, fun hs q hq => ?_⟩ hrest
    -- What is removed now stood in the same place before anything was removed.
    obtain ⟨e', hf'⟩ := hm.shrinks.find hf
    obtain ⟨hmem, hne⟩ := hnames name List.mem_cons_self
    rw [hsame q (hs listed hlisted name hmem hne d e' hf' q hq)]
    exact hm.way_eq hs q hq

private theorem cleared_of_ends {keep : Text} {u : Unit}
    (h : (clearOutput output [keep] : Task (StateM Machine) Unit).Ends m u m') (path : Path) :
    Cleared m.files m'.files output keep path := by
  have hrefl {m' : Machine} (h : m'.files = m.files) : Cleared m.files m'.files output keep path := by
    rw [h]
    exact ⟨.refl _, fun _ _ _ => rfl⟩
  unfold clearOutput at h
  obtain ⟨b, m₁, hb, h⟩ := ends_bind.1 h
  have hfiles := keepsFiles_isDirectory.ends hb
  cases b with
  | false =>
    obtain ⟨-, rfl⟩ := ends_pure.1 h
    exact hrefl hfiles
  | true =>
    rw [if_pos rfl] at h
    obtain ⟨listed, m₂, hlisted, h⟩ := ends_bind.1 h
    obtain ⟨hnames, rfl⟩ := Prod.mk.inj (ends_attempt.1 hlisted)
    rw [hfiles] at hnames
    refine cleared_forM hnames (fun name hname => ?_) (hrefl hfiles) h
    obtain ⟨hmem, hkept⟩ := List.mem_filter.1 hname
    exact ⟨hmem, by simpa using hkept⟩

/-! ## Generating groups -/

private theorem onlyChanges_of_groups {rs : List GroupResult}
    (h : (groups.mapM (generateGroup s output types) : Task (StateM Machine) _).Ends m rs m') :
    OnlyChanges (fun path => ∃ g ∈ groups, path = typesPath output g.1 ∨ path = functionsPath output g.1) m.files
      m'.files := by
  let e : Extent :=
    { written := fun path => ∃ g ∈ groups, path = typesPath output g.1 ∨ path = functionsPath output g.1
      made := fun _ => True
      removed := fun _ => False }
  have hallowed : ∀ g ∈ groups, e.AllowsGroup output g.1 := fun g hg =>
    ⟨trivial, ⟨g, hg, .inl rfl⟩, ⟨g, hg, .inr rfl⟩⟩
  have htouches : Touches e (groups.mapM (generateGroup s output types)) m :=
    .mapM (fun g hg m => touches_generateGroup (hallowed g hg) m) m
  unfold Touches at htouches
  rw [h] at htouches
  exact htouches.onlyChanges fun _ => id

theorem FileTree.OnlyChanges.contentAt?_eq {paths : Path → Prop} {t t' : FileTree} (h : OnlyChanges paths t t')
    {p : Place} {c : Content} (hp : t'.get? p = some (.file c)) (hno : ∀ path, paths path → ¬t'.LeadsAt path p) :
    t.get? p = some (.file c) := by
  by_cases hsame : t'.get? p = t.get? p
  · rw [← hsame, hp]
  · rcases h.changed p hsame with ⟨path, hpath, hfile⟩ | ⟨-, hmade⟩
    · exact absurd hfile.leadsAt (hno path hpath)
    · rw [hp] at hmade
      cases hmade

/-- A path to a file that is none of those that are written goes on leading to it. -/
theorem FileTree.OnlyChanges.find_file {paths : Path → Prop} {t t' : FileTree} (h : OnlyChanges paths t t')
    {p : Place} {c : Content} (hf : t.find true path = .ok (p, some (.file c)))
    (hno : ∀ other, paths other → t'.LeadsAt path p → ¬t'.LeadsAt other p) :
    t'.find true path = .ok (p, some (.file c)) := by
  obtain ⟨e, hf', he⟩ := find_kept h.kept h.here_eq hf
  cases he with
  | file _ c' =>
    have hold := h.contentAt?_eq (get?_of_find_file hf') fun other hother => hno other hother ⟨_, hf'⟩
    rw [get?_of_find_file hf] at hold
    obtain rfl : c = c' := by simpa using hold
    exact hf'

/-! ## Updates -/

/-- What an update does: it loads, it saves aliases, and unless these are all that is wanted it goes on with the output.
-/
private theorem ends_update_parts
    (h : (update s directory options : Task (StateM Machine) UpdateResult).Ends m result m') :
    ∃ document given m₁ m₂,
      (loadDescription directory s.input : Task (StateM Machine) Fields).Ends m document m ∧
      (loadAliases (directory / Path.ofText s.output) s.tagMapping : Task (StateM Machine) Aliases).Ends m given m₁ ∧
      (saveAliases (directory / Path.ofText s.output) (given.register (allTags document)) :
        Task (StateM Machine) Unit).Ends m₁ () m₂ ∧
      (∃ first, (update s directory { initOnly := true } : Task (StateM Machine) UpdateResult).Ends m first m₂) ∧
      (options.initOnly = true → m' = m₂) ∧
      (options.initOnly = false → ∃ m₃ rs,
        (options.clean = true →
          (clearOutput (directory / Path.ofText s.output) [aliasFileName] : Task (StateM Machine) Unit).Ends m₂ () m₃) ∧
        (options.clean = false → m₃ = m₂) ∧
        ((plannedModel s given document).operations.mapM
          (generateGroup s (directory / Path.ofText s.output) (plannedModel s given document).allTypes) :
            Task (StateM Machine) _).Ends m₃ rs m') := by
  unfold update at h
  obtain ⟨document, m₀, hdocument, h⟩ := ends_bind.1 h
  obtain rfl := (ends_loadDescription_again hdocument).1.symm
  obtain ⟨given, m₁, hgiven, h⟩ := ends_bind.1 h
  obtain ⟨_, m₂, hsaved, h⟩ := ends_bind.1 h
  have hfirst : ∃ first, (update s directory { initOnly := true } : Task (StateM Machine) UpdateResult).Ends m first
      m₂ :=
    ⟨_, ends_bind.2 ⟨_, _, hdocument, ends_bind.2 ⟨_, _, hgiven, ends_bind.2 ⟨_, _, hsaved, ends_pure.2 ⟨rfl, rfl⟩⟩⟩⟩⟩
  refine ⟨document, given, m₁, m₂, hdocument, hgiven, hsaved, hfirst, fun hi => ?_, fun hi => ?_⟩
  · rw [if_pos hi] at h
    exact (ends_pure.1 h).2.symm
  · rw [if_neg (by simp [hi])] at h
    split at h
    · next hc =>
      obtain ⟨_, m₃, hcleared, h⟩ := ends_bind.1 h
      obtain ⟨rs, m₄, hgroups, h⟩ := ends_bind.1 h
      obtain ⟨-, rfl⟩ := ends_pure.1 h
      exact ⟨m₃, rs, fun _ => hcleared, fun hnot => absurd hc (by simp [hnot]), hgroups⟩
    · next hc =>
      obtain ⟨rs, m₄, hgroups, h⟩ := ends_bind.1 h
      obtain ⟨-, rfl⟩ := ends_pure.1 h
      exact ⟨m₂, rs, fun hclean => absurd hclean hc, fun _ => rfl, hgroups⟩

/-- The file of aliases is out of the way of an update: no generated file is in its place in the end, and nothing on the
way to it is removed once the aliases are saved. -/
structure SparesAliases (s : Settings) (directory : Path) (options : UpdateOptions) (m m' : Machine) : Prop where
  generated : options.initOnly = false → ∀ g, PlansGroup s directory m g → ∀ p,
    m'.files.LeadsAt ((directory / Path.ofText s.output).child aliasFileName) p →
      ¬m'.files.LeadsAt (typesPath (directory / Path.ofText s.output) g) p ∧
      ¬m'.files.LeadsAt (functionsPath (directory / Path.ofText s.output) g) p
  removed : options.initOnly = false → options.clean = true → ∀ first m₁,
    (update s directory { initOnly := true } : Task (StateM Machine) UpdateResult).Ends m first m₁ →
      m₁.files.SparesWay (directory / Path.ofText s.output) aliasFileName
        ((directory / Path.ofText s.output).child aliasFileName)

private theorem find_aliases_after
    (h : (update s directory options : Task (StateM Machine) UpdateResult).Ends m result m')
    (hs : SparesAliases s directory options m m') {first : UpdateResult} {m₁ : Machine}
    (hfirst : (update s directory { initOnly := true } : Task (StateM Machine) UpdateResult).Ends m first m₁) :
    (∀ p c, m₁.files.find true ((directory / Path.ofText s.output).child aliasFileName) = .ok (p, some (.file c)) →
      m'.files.find true ((directory / Path.ofText s.output).child aliasFileName) = .ok (p, some (.file c))) ∧
    ∀ p c, m'.files.find true ((directory / Path.ofText s.output).child aliasFileName) = .ok (p, some (.file c)) →
      m₁.files.get? p = some (.file c) := by
  obtain ⟨document, given, m₀, m₂, hdocument, hgiven, -, ⟨first', hfirst'⟩, hinit, hrest⟩ := ends_update_parts h
  obtain ⟨-, rfl⟩ := hfirst.unique hfirst'
  cases hoptions : options.initOnly with
  | true =>
    obtain rfl := hinit hoptions
    exact ⟨fun _ _ => id, fun _ _ => get?_of_find_file⟩
  | false =>
    obtain ⟨m₃, rs, hcleared, hkept, hgroups⟩ := hrest hoptions
    have hchanges := onlyChanges_of_groups hgroups
    have hplans {g : Text × List Operation} (hg : g ∈ (plannedModel s given document).operations) :
        PlansGroup s directory m g.1 := ⟨document, m, given, m₀, hdocument, hgiven, List.mem_map_of_mem hg⟩
    have hapart : ∀ other, (∃ g ∈ (plannedModel s given document).operations,
        other = typesPath (directory / Path.ofText s.output) g.1 ∨
          other = functionsPath (directory / Path.ofText s.output) g.1) → ∀ p,
        m'.files.LeadsAt ((directory / Path.ofText s.output).child aliasFileName) p → ¬m'.files.LeadsAt other p := by
      rintro other ⟨g, hg, rfl | rfl⟩ p hp
      · exact (hs.generated hoptions g.1 (hplans hg) p hp).1
      · exact (hs.generated hoptions g.1 (hplans hg) p hp).2
    -- Removing the output leaves the way to the file as it is.
    have hway : Shrinks m₁.files m₃.files ∧
        m₃.files.find true ((directory / Path.ofText s.output).child aliasFileName) =
          m₁.files.find true ((directory / Path.ofText s.output).child aliasFileName) := by
      cases hclean : options.clean with
      | true =>
        have hc := cleared_of_ends (hcleared hclean) ((directory / Path.ofText s.output).child aliasFileName)
        exact ⟨hc.shrinks, find_congr hc.shrinks.here_eq (hc.way_eq (hs.removed hoptions hclean first m₁ hfirst))⟩
      | false =>
        rw [hkept hclean]
        exact ⟨.refl _, rfl⟩
    constructor
    · intro p c hf
      rw [← hway.2] at hf
      exact hchanges.find_file hf fun other hother hp => hapart other hother p hp
    · intro p c hf
      have hget := hchanges.contentAt?_eq (get?_of_find_file hf) fun other hother => hapart other hother p ⟨_, hf⟩
      rcases hway.1.get?_eq p with hp | hp
      · rw [← hp, hget]
      · rw [hp] at hget
        cases hget

/-- An update that takes its aliases from the file adds to its table the categories that are new. -/
theorem HoldsTable.updated {document : Fields}
    (h : HoldsTable (aliasContent? (directory / Path.ofText s.output) m.files) table) (hs : s.tagMapping = [])
    (hdocument : (loadDescription directory s.input : Task (StateM Machine) Fields).Ends m document m)
    (hu : (update s directory options : Task (StateM Machine) UpdateResult).Ends m result m')
    (hspares : SparesAliases s directory options m m') :
    HoldsTable (aliasContent? (directory / Path.ofText s.output) m'.files)
      (table ++ identities (newTags table.keys (allTags document))) := by
  obtain ⟨document', given, m₁, m₂, hdocument', hgiven, hsaved, ⟨first, hfirst⟩, hinit, hrest⟩ := ends_update_parts hu
  obtain ⟨rfl, -⟩ := hdocument'.unique hdocument
  have hfiles := (ends_loadAliases_keeps hgiven).1
  rw [hs] at hgiven
  obtain ⟨mapping, hread, rfl⟩ := ends_loadAliases_nil.1 hgiven
  obtain rfl := h.eq_of_ends hread
  have hsource : (if mapping = [] then AliasSource.empty else .file) ≠ .config := by
    split <;> simp
  rw [← hfiles] at h
  have hheld := HoldsTable.saved h hsource rfl (nodup_allTags document') hsaved
  dsimp only at hheld
  generalize hadded : mapping ++ identities (newTags mapping.keys (allTags document')) = added at hheld ⊢
  cases hc : aliasContent? (directory / Path.ofText s.output) m₂.files with
  | some c =>
    rw [hc] at hheld
    obtain ⟨p, hf⟩ := aliasContent?_eq_some_iff.1 hc
    rw [aliasContent?_eq_some_iff.2 ⟨p, (find_aliases_after hu hspares hfirst).1 p c hf⟩]
    exact hheld
  | none =>
    rw [hc] at hheld
    -- There are no aliases and none are new, so there are no groups, and what is removed brings back no file.
    cases hheld
    obtain ⟨rfl, hnone⟩ := List.append_eq_nil_iff.1 hadded
    have htags : allTags document' = [] := by simpa [identities, newTags, Table.keys] using hnone
    suffices hshrinks : Shrinks m₂.files m'.files by
      have hgone : aliasContent? (directory / Path.ofText s.output) m'.files = none := by
        rw [Option.eq_none_iff_forall_ne_some]
        intro c hc'
        obtain ⟨p, hf⟩ := aliasContent?_eq_some_iff.1 hc'
        rw [aliasContent?_eq_some_iff.2 ⟨p, hshrinks.find_file hf⟩] at hc
        cases hc
      rw [hgone]
      exact .absent
    cases hoptions : options.initOnly with
    | true => exact hinit hoptions ▸ .refl _
    | false =>
      obtain ⟨m₃, rs, hcleared, hkept, hgroups⟩ := hrest hoptions
      have hoperations : (plannedModel s { mapping := [] } document').operations = [] :=
        ApiModel.operations_eq_nil htags _ _
      rw [if_pos rfl, hoperations] at hgroups
      obtain ⟨-, rfl⟩ := ends_mapM_nil.1 hgroups
      cases hclean : options.clean with
      | true => exact (cleared_of_ends (hcleared hclean) (directory / Path.ofText s.output)).shrinks
      | false => exact hkept hclean ▸ .refl _

/-- An update that takes its aliases from the settings leaves the content of the file as it is, and has written none
that is there in the end. -/
theorem aliasContent?_of_configured (hs : s.tagMapping ≠ [])
    (h : (update s directory options : Task (StateM Machine) UpdateResult).Ends m result m')
    (hspares : SparesAliases s directory options m m') :
    (∀ c, aliasContent? (directory / Path.ofText s.output) m.files = some c →
      aliasContent? (directory / Path.ofText s.output) m'.files = some c) ∧
    ∀ c, aliasContent? (directory / Path.ofText s.output) m'.files = some c →
      ∃ p, m'.files.LeadsAt ((directory / Path.ofText s.output).child aliasFileName) p ∧
        m.files.get? p = some (.file c) := by
  obtain ⟨document, given, m₁, m₂, hdocument, hgiven, hsaved, ⟨first, hfirst⟩, -⟩ := ends_update_parts h
  obtain ⟨rfl, rfl⟩ := (ends_loadAliases_of_ne_nil hs).1 hgiven
  obtain ⟨-, rfl⟩ := hsaved.unique (ends_saveAliases_nothing (.inl Aliases.source_register))
  obtain ⟨hforth, hback⟩ := find_aliases_after h hspares hfirst
  constructor
  · intro c hc
    obtain ⟨p, hf⟩ := aliasContent?_eq_some_iff.1 hc
    exact aliasContent?_eq_some_iff.2 ⟨p, hforth p c hf⟩
  · intro c hc
    obtain ⟨p, hf⟩ := aliasContent?_eq_some_iff.1 hc
    exact ⟨p, ⟨_, hf⟩, hback p c hf⟩

/-! ## Without links -/

private theorem hasNoLinks_of_update (hl : m.files.HasNoLinks) (hn : m.files.WellNamed)
    (hdirectory : directory.IsProper)
    (h : (update s directory options : Task (StateM Machine) UpdateResult).Ends m result m') :
    m'.files.HasNoLinks := by
  have htouched := touches_update (s := s) hn hdirectory options
  unfold Touches at htouched
  rw [h] at htouched
  exact (htouched.content_eq hl).2.1

/-- Without links, and without points in the path of the output, the file of aliases is spared. -/
theorem SparesAliases.of_noLinks (hl : m.files.HasNoLinks) (hn : m.files.WellNamed) (hdirectory : directory.IsProper)
    (hplain : ∀ name ∈ (directory / Path.ofText s.output).names, name ≠ ['.', '.'])
    (h : (update s directory options : Task (StateM Machine) UpdateResult).Ends m result m') :
    SparesAliases s directory options m m' := by
  constructor
  · intro _ g _ p hp
    have hl' := hasNoLinks_of_update hl hn hdirectory h
    have hname := hp.getLast?_child hl' isFileName_aliasFileName
    constructor
    · intro hq
      exact absurd (hname.symm.trans (hq.getLast?_child hl' isFileName_typesFileName)) (by decide)
    · intro hq
      exact absurd (hname.symm.trans (hq.getLast?_child hl' isFileName_functionsFileName)) (by decide)
  · intro _ _ first m₁ hfirst
    have hl' := hasNoLinks_of_update hl hn hdirectory hfirst
    obtain ⟨document, given, m₂, m₃, -, hgiven, hsaved, -, hinit, -⟩ := ends_update_parts hfirst
    obtain rfl := hinit rfl
    rw [← (ends_loadAliases_keeps hgiven).1] at hn
    exact .of_noLinks hl'
      (wellNamed_saveAliases (hdirectory.join (Path.isProper_ofText _)) hn hsaved) isFileName_aliasFileName hplain

end ClientGen
