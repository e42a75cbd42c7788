import ClientGen.Proofs.Files.Rewriting
import ClientGen.Proofs.Project.Update
import ClientGen.Proofs.TypeScript.FunctionsFile
/-!
# Generating again

What the groups write to one place depends on what was there before and on the groups whose paths lead there. Done
a second time it changes nothing, if no carriage return stands behind the region of a functions file.
-/

namespace ClientGen

open Text ClientGen.Task FileTree

/-! ## Functions files -/

/-- The text of a functions file that is read and written with a new region. -/
def regenerate (existing : Option Text) (generated : Text) : Text :=
  (mergeFunctionsFile (existing.map unifyLineEnds) generated).content

/-- The text of a functions file that is written several times. -/
def regenerateAll (existing : Option Text) (gs : List Text) : Option Text :=
  gs.foldl (fun t g => some (regenerate t g)) existing

/-- A generated text with markers and without carriage returns before them. -/
def IsUsable (g : Text) : Prop := ∃ r, MarkedFile.ofText? g = some r ∧ '\r' ∉ r.before

section Functions

variable {g t : Text} {f r : MarkedFile}

/-- A text that is generated into whatever was there has the new region, and nothing before it is read otherwise. -/
theorem regenerate_parts (hg : MarkedFile.ofText? g = some r) (hr : '\r' ∉ r.before) (existing : Option Text) :
    ∃ f, MarkedFile.ofText? (regenerate existing g) = some f ∧ f.region = r.region ∧ '\r' ∉ f.before := by
  unfold regenerate
  cases existing with
  | none => exact ⟨r, hg, rfl, hr⟩
  | some old =>
    rw [Option.map_some]
    cases hread : MarkedFile.ofText? (unifyLineEnds old) with
    | none => exact ⟨r, by rw [mergeFunctionsFile_of_unusable (.inl hread), hg], rfl, hr⟩
    | some kept =>
      have hb : kept.before <+: unifyLineEnds old := by
        rw [(MarkedFile.ofText?_eq_some_iff.1 hread).1, MarkedFile.toText]
        simp only [List.append_assoc]
        exact List.prefix_append _ _
      exact ⟨_, ofText?_mergeFunctionsFile hread hg, rfl, fun hc => notMem_unifyLineEnds old (hb.subset hc)⟩

theorem regenerate_of_usable (ht : MarkedFile.ofText? t = some f) (hb : '\r' ∉ f.before) (ha : '\r' ∉ f.after)
    (hg : MarkedFile.ofText? g = some r) :
    regenerate (some t) g = ({ f with region := r.region } : MarkedFile).toText ∧
      MarkedFile.ofText? (regenerate (some t) g) = some { f with region := r.region } := by
  have hread := MarkedFile.ofText?_unifyLineEnds ht
  have houtside : ({ f.unified with region := r.region } : MarkedFile) = { f with region := r.region } := by
    simp [MarkedFile.unified, unifyLineEnds_of_notMem hb, unifyLineEnds_of_notMem ha]
  have hparts := ofText?_mergeFunctionsFile hread hg
  rw [houtside] at hparts
  exact ⟨(MarkedFile.ofText?_eq_some_iff.1 hparts).1, hparts⟩

private theorem regenerateAll_concat (existing : Option Text) (gs : List Text) (g : Text) :
    regenerateAll existing (gs ++ [g]) = some (regenerate (regenerateAll existing gs) g) := by
  simp [regenerateAll]

theorem regenerateAll_of_usable {gs : List Text} (ht : MarkedFile.ofText? t = some f) (hb : '\r' ∉ f.before)
    (ha : '\r' ∉ f.after) (hgs : ∀ g ∈ gs, ∃ r, MarkedFile.ofText? g = some r) :
    ∃ t' region, regenerateAll (some t) gs = some t' ∧ MarkedFile.ofText? t' = some { f with region } := by
  induction gs generalizing t f with
  | nil => exact ⟨t, f.region, rfl, ht⟩
  | cons g gs ih =>
    obtain ⟨r, hg⟩ := hgs g List.mem_cons_self
    obtain ⟨-, hparts⟩ := regenerate_of_usable ht hb ha hg
    obtain ⟨t', region, hall, ht'⟩ := ih hparts hb ha fun g hg => hgs g (List.mem_cons_of_mem _ hg)
    exact ⟨t', region, hall, ht'⟩

theorem regenerateAll_again {gs : List Text} {existing : Option Text} (hgs : ∀ g ∈ gs, IsUsable g)
    (ha : ∀ t f, regenerateAll existing gs = some t → MarkedFile.ofText? t = some f → '\r' ∉ f.after) :
    regenerateAll (regenerateAll existing gs) gs = regenerateAll existing gs := by
  rcases List.eq_nil_or_concat' gs with rfl | ⟨before, g, rfl⟩
  · rfl
  · obtain ⟨r, hg, hr⟩ := hgs g (by simp)
    obtain ⟨f, hf, hregion, hb⟩ := regenerate_parts hg hr (regenerateAll existing before)
    have hfirst := regenerateAll_concat existing before g
    have hafter := ha _ f hfirst hf
    -- of all that is written in between only the last region is left
    obtain ⟨t', region, hall, ht'⟩ := regenerateAll_of_usable hf hb hafter fun g hg =>
      (hgs g (List.mem_append_left _ hg)).imp fun _ => And.left
    have hlast := (regenerate_of_usable ht' hb hafter hg).1
    rw [hfirst, regenerateAll_concat, hall, hlast, ← hregion]
    exact congrArg some (MarkedFile.ofText?_eq_some_iff.1 hf).1.symm

theorem exists_regenerateAll {gs : List Text} (hne : gs ≠ []) (hgs : ∀ g ∈ gs, IsUsable g) (existing : Option Text) :
    ∃ t, regenerateAll existing gs = some t ∧ (MarkedFile.ofText? t).isSome = true := by
  obtain rfl | ⟨before, g, rfl⟩ := List.eq_nil_or_concat' gs
  · exact absurd rfl hne
  · obtain ⟨r, hg, hr⟩ := hgs g (by simp)
    obtain ⟨f, hf, -⟩ := regenerate_parts hg hr (regenerateAll existing before)
    exact ⟨_, regenerateAll_concat existing before g, by rw [hf]; rfl⟩

end Functions

/-! ## Groups -/

variable {s : Settings} {output : Path} {types : List NamedType} {m m' : Machine}

private theorem ends_readOutput?_write {path : Path} {existing : Option Text} {u : Text} {files : FileTree}
    (hread : (readOutput? path : Task (StateM Machine) (Option Text)).Ends m existing m)
    (hw : m.files.write path (.text u) = .ok files) :
    ∃ q, files.find true path = .ok (q, some (.file (.text u))) ∧
      existing = (m.files.textAt? q).map unifyLineEnds ∧
      ∀ x, files.textAt? x = if x = q then some u else m.files.textAt? x := by
  obtain ⟨q, hbefore, hfind, htexts⟩ := textAt?_write hw
  refine ⟨q, hfind, ?_, htexts⟩
  rcases (ends_readOutput?.1 hread).1 with ⟨hno, rfl⟩ | ⟨old, -, hold, rfl⟩
  · rcases hbefore with hfree | ⟨c, hfile⟩
    · rw [textAt?_of_free hfree]
      rfl
    · rw [isFile_eq_true_iff.2 ⟨q, c, hfile⟩] at hno
      cases hno
  · obtain ⟨q', hq'⟩ := read_eq_ok_iff.1 hold
    obtain rfl : q' = q := by
      rcases hbefore with hfree | ⟨c, hfile⟩
      · rw [hq'] at hfree
        cases hfree
      · rw [hq'] at hfile
        exact (Prod.mk.inj (Except.ok.inj hfile)).1
    rw [textAt?_of_find hq']
    rfl

/-- The texts behind the generation of a group: that of its types stands where their path leads to, and that of its
functions is generated into what stands where theirs does. -/
theorem ends_generateGroup_texts {g : Text × List Operation} {r : GroupResult}
    (h : (generateGroup s output types g : Task (StateM Machine) GroupResult).Ends m r m') :
    ∃ p q, m'.files.FileAt (typesPath output g.1) p ∧ m'.files.FileAt (functionsPath output g.1) q ∧
      ∀ x, m'.files.textAt? x =
        let u := if x = p then some (renderTypesFile s (groupTypes g.2 types) g.2) else m.files.textAt? x
        if x = q then some (regenerate u (renderFunctionsFile s g.2)) else u := by
  obtain ⟨action, m₄, hgroup, hend⟩ := ends_bind.1 h
  obtain ⟨-, rfl⟩ := ends_pure.1 hend
  clear h
  unfold writeGroup at hgroup
  dsimp only at hgroup
  obtain ⟨_, m₁, hdirectory, h⟩ := ends_bind.1 hgroup
  obtain ⟨_, m₂, htypes, h⟩ := ends_bind.1 h
  obtain ⟨existing, m₃, hread, h⟩ := ends_bind.1 h
  obtain ⟨-, rfl⟩ := ends_readOutput?.1 hread
  obtain ⟨made, hmade, rfl⟩ := ends_makeOutput.1 hdirectory
  obtain ⟨files, hwritten, rfl⟩ := ends_writeText.1 htypes
  obtain ⟨p, -, hp, htexts⟩ := textAt?_write hwritten
  have hsame (x : Place) : made.textAt? x = m.files.textAt? x := by
    have hnone := textAt?_makeDirectories m.files (output.child g.1) x
    rw [hmade] at hnone
    exact hnone
  -- a warning in between leaves the files as they are
  obtain ⟨files', hfunctions, hfiles⟩ : ∃ files',
      files.write (functionsPath output g.1)
        (.text (mergeFunctionsFile existing (renderFunctionsFile s g.2)).content) = .ok files' ∧
      m₄.files = files' := by
    split at h
    · obtain ⟨_, m₅, hwarn, h⟩ := ends_bind.1 h
      obtain rfl := ends_warn.1 hwarn
      obtain ⟨_, m₆, hw, hend⟩ := ends_bind.1 h
      obtain ⟨-, rfl⟩ := ends_pure.1 hend
      obtain ⟨files', hfiles, rfl⟩ := ends_writeText.1 hw
      exact ⟨files', hfiles, rfl⟩
    · obtain ⟨_, m₆, hw, hend⟩ := ends_bind.1 h
      obtain ⟨-, rfl⟩ := ends_pure.1 hend
      obtain ⟨files', hfiles, rfl⟩ := ends_writeText.1 hw
      exact ⟨files', hfiles, rfl⟩
  obtain ⟨q, hq, rfl, htexts'⟩ := ends_readOutput?_write hread hfunctions
  rw [hfiles]
  have hgrows := (write_grows hfunctions).1
  refine ⟨p, q, FileAt.kept ⟨_, hp⟩ hgrows.kept hgrows.here_eq, ⟨_, hq⟩, fun x => ?_⟩
  rw [htexts' x]
  by_cases hx : x = q
  · subst hx
    rw [if_pos rfl]
    dsimp only
    rw [if_pos rfl, regenerate, htexts x, hsame x]
  · rw [if_neg hx]
    dsimp only
    rw [if_neg hx, htexts x, hsame x]

open Classical in
/-- The text at a place of the tree `t` behind the generation of a group, from the text before. -/
noncomputable def groupText (s : Settings) (output : Path) (types : List NamedType) (t : FileTree) (p : Place)
    (u : Option Text) (g : Text × List Operation) : Option Text :=
  let u := if t.LeadsAt (typesPath output g.1) p then some (renderTypesFile s (groupTypes g.2 types) g.2) else u
  if t.LeadsAt (functionsPath output g.1) p then some (regenerate u (renderFunctionsFile s g.2)) else u

theorem textAt?_generateGroup {g : Text × List Operation} {r : GroupResult}
    (h : (generateGroup s output types g : Task (StateM Machine) GroupResult).Ends m r m') {t : FileTree}
    (hk : m'.files.Kept t) (hh : t.here = m'.files.here) (x : Place) :
    m'.files.textAt? x = groupText s output types t x (m.files.textAt? x) g := by
  obtain ⟨p, q, hp, hq, htexts⟩ := ends_generateGroup_texts h
  rw [htexts x]
  simp only [groupText, hp.leadsAt_iff hk hh, hq.leadsAt_iff hk hh]

/-- Behind the generation of groups, a place has the text that the groups leave there one after the other. -/
theorem textAt?_generateGroups {groups : List (Text × List Operation)} {rs : List GroupResult}
    (h : (groups.mapM (generateGroup s output types) : Task (StateM Machine) _).Ends m rs m') {t : FileTree}
    (hk : m'.files.Kept t) (hh : t.here = m'.files.here) (x : Place) :
    m'.files.textAt? x = groups.foldl (groupText s output types t x) (m.files.textAt? x) := by
  induction groups generalizing m rs with
  | nil =>
    obtain ⟨-, rfl⟩ := ends_mapM_nil.1 h
    rfl
  | cons g groups ih =>
    obtain ⟨r, m₁, rs', hg, hrest, -⟩ := ends_mapM_cons.1 h
    obtain ⟨ws, hws, -, -⟩ := ends_generateGroups hrest
    have hgrows := hws.files_written.grows
    rw [ih hrest, List.foldl_cons, textAt?_generateGroup hg (hgrows.kept.trans hk) (hh.trans hgrows.here_eq)]

/-- Behind the generation of groups, the paths of each lead to files. -/
theorem fileAt_generateGroups {groups : List (Text × List Operation)} {rs : List GroupResult}
    (h : (groups.mapM (generateGroup s output types) : Task (StateM Machine) _).Ends m rs m') :
    ∀ g ∈ groups, (∃ p, m'.files.FileAt (typesPath output g.1) p) ∧
      ∃ q, m'.files.FileAt (functionsPath output g.1) q := by
  induction groups generalizing m rs with
  | nil => simp
  | cons g groups ih =>
    obtain ⟨r, m₁, rs', hg, hrest, -⟩ := ends_mapM_cons.1 h
    obtain ⟨ws, hws, -, -⟩ := ends_generateGroups hrest
    have hgrows := hws.files_written.grows
    intro g' hg'
    rcases List.mem_cons.1 hg' with rfl | hg'
    · obtain ⟨p, q, hp, hq, -⟩ := ends_generateGroup_texts hg
      exact ⟨⟨p, hp.kept hgrows.kept hgrows.here_eq⟩, q, hq.kept hgrows.kept hgrows.here_eq⟩
    · exact ih hrest g' hg'

/-- With a client and a module that hold neither a marker nor a carriage return, what is generated is usable. -/
theorem isUsable_renderFunctionsFile (hc : '\r' ∉ s.requestClient ∧ HasNoMarker s.requestClient)
    (hi : '\r' ∉ s.requestImport ∧ HasNoMarker s.requestImport) (operations : List Operation) :
    IsUsable (renderFunctionsFile s operations) := by
  obtain ⟨f, hf, hbefore⟩ := exists_parts_renderFunctionsFile hc.2 hi.2 operations
  exact ⟨f, hf, hbefore ▸ notMem_before hc.1 hi.1⟩

section Fold

variable {t : FileTree} {x : Place} {groups : List (Text × List Operation)}

open Classical in
/-- The functions files of the groups whose functions are written to a place. -/
noncomputable def functionsAt (s : Settings) (output : Path) (t : FileTree) (x : Place)
    (groups : List (Text × List Operation)) : List Text :=
  (groups.filter fun g => t.LeadsAt (functionsPath output g.1) x).map fun g => renderFunctionsFile s g.2

theorem foldl_groupText_functions (hx : ∀ g ∈ groups, ¬t.LeadsAt (typesPath output g.1) x) (u : Option Text) :
    groups.foldl (groupText s output types t x) u = regenerateAll u (functionsAt s output t x groups) := by
  induction groups generalizing u with
  | nil => rfl
  | cons g groups ih =>
    have hfirst := hx g List.mem_cons_self
    rw [List.foldl_cons, ih fun g hg => hx g (List.mem_cons_of_mem _ hg)]
    by_cases hg : t.LeadsAt (functionsPath output g.1) x
    · simp [groupText, functionsAt, regenerateAll, hfirst, hg]
    · simp [groupText, functionsAt, regenerateAll, hfirst, hg]

private theorem foldl_groupText_types (types : List NamedType) (hx : ∀ g ∈ groups, ¬t.LeadsAt (functionsPath output g.1) x) :
    (∀ u, groups.foldl (groupText s output types t x) u = u) ∨
      ∃ w, ∀ u, groups.foldl (groupText s output types t x) u = w := by
  induction groups with
  | nil => exact .inl fun _ => rfl
  | cons g groups ih =>
    have hfirst := hx g List.mem_cons_self
    rcases ih fun g hg => hx g (List.mem_cons_of_mem _ hg) with hsame | ⟨w, hw⟩
    · by_cases hg : t.LeadsAt (typesPath output g.1) x
      · exact .inr ⟨_, fun u => by rw [List.foldl_cons, hsame, groupText, if_neg hfirst, if_pos hg]⟩
      · exact .inl fun u => by rw [List.foldl_cons, hsame, groupText, if_neg hfirst, if_neg hg]
    · exact .inr ⟨w, fun u => by rw [List.foldl_cons, hw]⟩

/-- Groups that are generated again leave the same text, at each place to which not both the types of one and the
functions of another are written. -/
theorem foldl_groupText_again {u : Option Text} (hg : ∀ g ∈ groups, IsUsable (renderFunctionsFile s g.2))
    (hapart : ∀ g ∈ groups, t.LeadsAt (typesPath output g.1) x →
      ∀ h ∈ groups, ¬t.LeadsAt (functionsPath output h.1) x)
    (ha : (∃ h ∈ groups, t.LeadsAt (functionsPath output h.1) x) → ∀ v f,
      groups.foldl (groupText s output types t x) u = some v → MarkedFile.ofText? v = some f → '\r' ∉ f.after) :
    groups.foldl (groupText s output types t x) (groups.foldl (groupText s output types t x) u) =
      groups.foldl (groupText s output types t x) u := by
  by_cases hx : ∃ h ∈ groups, t.LeadsAt (functionsPath output h.1) x
  · have htypes : ∀ g ∈ groups, ¬t.LeadsAt (typesPath output g.1) x := by
      obtain ⟨h, hh, hl⟩ := hx
      exact fun g hg hgl => hapart g hg hgl h hh hl
    have husable : ∀ v ∈ functionsAt s output t x groups, IsUsable v := by
      intro v hv
      obtain ⟨g, hmem, rfl⟩ := List.mem_map.1 hv
      exact hg g (List.mem_filter.1 hmem).1
    replace ha := ha hx
    simp only [foldl_groupText_functions htypes] at ha ⊢
    exact regenerateAll_again husable ha
  · have hfunctions : ∀ g ∈ groups, ¬t.LeadsAt (functionsPath output g.1) x :=
      fun g hg hl => hx ⟨g, hg, hl⟩
    rcases foldl_groupText_types (s := s) types hfunctions with hsame | ⟨w, hw⟩
    · rw [hsame]
    · rw [hw, hw]

/-- A place to which the types of a group are written has a text behind all groups. -/
theorem foldl_groupText_isSome (types : List NamedType) {u : Option Text}
    (h : u.isSome = true ∨ ∃ g ∈ groups, t.LeadsAt (typesPath output g.1) x) :
    (groups.foldl (groupText s output types t x) u).isSome = true := by
  induction groups generalizing u with
  | nil => simpa using h
  | cons g groups ih =>
    rw [List.foldl_cons]
    apply ih
    by_cases htypes : t.LeadsAt (typesPath output g.1) x
    · left
      simp only [groupText, htypes, if_true]
      split <;> rfl
    · rcases h with hu | ⟨k, hk, hl⟩
      · left
        simp only [groupText, htypes, if_false]
        split
        · rfl
        · exact hu
      · rcases List.mem_cons.1 hk with rfl | hk
        · exact absurd hl htypes
        · exact .inr ⟨k, hk, hl⟩

/-- Behind all groups, the functions file of each has usable markers. -/
theorem foldl_groupText_usable (types : List NamedType) {u : Option Text}
    (hg : ∀ g ∈ groups, IsUsable (renderFunctionsFile s g.2))
    (htypes : ∀ g ∈ groups, ¬t.LeadsAt (typesPath output g.1) x)
    (hx : ∃ h ∈ groups, t.LeadsAt (functionsPath output h.1) x) :
    ∃ v, groups.foldl (groupText s output types t x) u = some v ∧ (MarkedFile.ofText? v).isSome = true := by
  obtain ⟨h, hh, hl⟩ := hx
  rw [foldl_groupText_functions htypes]
  apply exists_regenerateAll
  · have hmem : renderFunctionsFile s h.2 ∈ functionsAt s output t x groups :=
      List.mem_map.2 ⟨h, List.mem_filter.2 ⟨hh, by simpa using hl⟩, rfl⟩
    exact List.ne_nil_of_mem hmem
  · intro v hv
    obtain ⟨g, hmem, rfl⟩ := List.mem_map.1 hv
    exact hg g (List.mem_filter.1 hmem).1

end Fold

end ClientGen
