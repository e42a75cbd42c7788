import ClientGen.Proofs.Files.Rewriting
/-!
# Extents of changes

What a sequence of changes may write, make and remove is a matter of the paths that it is given. In a tree without links
the files that come, change or go are found at the places that these paths write.
-/

namespace ClientGen

open Text

/-- The paths that changes keep to. -/
structure Extent where
  /-- The paths of files that may be written. -/
  written : Path → Prop
  /-- The paths of directories that may be made, with those on the way. -/
  made : Path → Prop
  /-- The paths of what may be removed, with all below it. -/
  removed : Path → Prop

namespace FileTree

/-- The tree `t'` is made from `t` by changes within an extent. -/
inductive Touched (e : Extent) : FileTree → FileTree → Prop
  | refl (t : FileTree) : Touched e t t
  | write {t t₁ t' : FileTree} {path : Path} {c : Content} (h : e.written path) (hw : t.write path c = .ok t₁)
      (hs : Touched e t₁ t') : Touched e t t'
  | make {t t' : FileTree} {path : Path} (h : e.made path) (hs : Touched e (t.makeDirectories path).2 t') :
      Touched e t t'
  | remove {t t₁ t' : FileTree} {path : Path} (h : e.removed path) (hr : t.remove path = .ok t₁)
      (hs : Touched e t₁ t') : Touched e t t'

variable {e : Extent} {t t' t'' : FileTree}

theorem Touched.trans (h : Touched e t t') (h' : Touched e t' t'') : Touched e t t'' := by
  induction h with
  | refl _ => exact h'
  | write hp hw _ ih => exact .write hp hw (ih h')
  | make hp _ ih => exact .make hp (ih h')
  | remove hp hr _ ih => exact .remove hp hr (ih h')

/-! ## Files at places -/

/-- What the file at a place holds. -/
def contentAt? (t : FileTree) (p : Place) : Option Content :=
  match t.get? p with
  | some (.file c) => some c
  | _ => none

theorem contentAt?_congr {p : Place} (h : t'.get? p = t.get? p) : t'.contentAt? p = t.contentAt? p := by
  unfold contentAt?
  rw [h]

/-! ## Changes that remove nothing -/

/-- Everything stays, and what is new or has changed is a file to which one of the paths leads, or a directory that is
new. -/
structure OnlyChanges (paths : Path → Prop) (t t' : FileTree) : Prop where
  here_eq : t'.here = t.here
  kept : t.Kept t'
  changed : ∀ p, t'.get? p ≠ t.get? p →
    (∃ path, paths path ∧ t'.FileAt path p) ∨ t.get? p = none ∧ t'.get? p = some .directory

namespace OnlyChanges

variable {paths : Path → Prop}

theorem refl (t : FileTree) : OnlyChanges paths t t where
  here_eq := rfl
  kept := .refl t
  changed _ hp := absurd rfl hp

theorem trans (h : OnlyChanges paths t t') (h' : OnlyChanges paths t' t'') : OnlyChanges paths t t'' where
  here_eq := h'.here_eq.trans h.here_eq
  kept := h.kept.trans h'.kept
  changed p hp := by
    by_cases hsecond : t''.get? p = t'.get? p
    · rw [hsecond] at hp ⊢
      rcases h.changed p hp with ⟨path, hpath, hfile⟩ | hmade
      · exact .inl ⟨path, hpath, hfile.kept h'.kept h'.here_eq⟩
      · exact .inr hmade
    · rcases h'.changed p hsecond with hfile | ⟨hfree, hmade⟩
      · exact .inl hfile
      -- What is a directory in the end was free at first, because everything stays.
      · cases hfirst : t.get? p with
        | none => exact .inr ⟨rfl, hmade⟩
        | some e =>
          obtain ⟨e', he', -⟩ := h.kept p e hfirst
          rw [hfree] at he'
          cases he'

theorem write {path : Path} {c : Content} (hpath : paths path) (h : t.write path c = .ok t') :
    OnlyChanges paths t t' := by
  obtain ⟨q, -, hq, rfl, hfind, hkept⟩ := write_put h
  refine ⟨rfl, hkept, fun p hp => .inl ⟨path, hpath, ?_⟩⟩
  obtain rfl : p = q := by
    by_contra hne
    exact hp (by rw [get?_put hq, if_neg hne])
  exact ⟨c, hfind⟩

private theorem makeDirectory (t t' : FileTree) (path : Path) (h : t.makeDirectory path = .ok t') :
    OnlyChanges paths t t' := by
  have hgrows := makeDirectory_grows h
  refine ⟨hgrows.here_eq, hgrows.kept, fun p hp => .inr ?_⟩
  unfold FileTree.makeDirectory at h
  split at h
  · next q hf =>
    obtain rfl := Except.ok.inj h
    have hfree := get?_of_find_free hf
    have hq : q ≠ [] := by
      rintro rfl
      exact Option.some_ne_none _ hfree
    rw [get?_put hq] at hp ⊢
    split at hp
    · next hpq => exact ⟨hpq ▸ hfree, if_pos hpq⟩
    · exact absurd rfl hp
  · cases h
  · cases h

theorem makeDirectories (t : FileTree) (path : Path) : OnlyChanges paths t (t.makeDirectories path).2 :=
  makeAll_of_steps (P := fun _ => True) (R := OnlyChanges paths) (fun _ _ => trivial) .refl (fun _ _ _ h h' => h.trans h')
    (fun t t' path _ => makeDirectory t t' path) trivial _ t

theorem hasNoLinks (h : OnlyChanges paths t t') (hl : t.HasNoLinks) : t'.HasNoLinks := by
  intro p target hp
  by_cases hsame : t'.get? p = t.get? p
  · exact hl p target (hsame ▸ hp)
  · rcases h.changed p hsame with ⟨path, -, c, hf⟩ | ⟨-, hmade⟩
    · rw [get?_of_find_file hf] at hp
      cases hp
    · rw [hmade] at hp
      cases hp

/-- In a tree without links, the files that come or change are at the places that the paths write. -/
theorem content_eq (h : OnlyChanges paths t t') (hl : t.HasNoLinks) {p : Place}
    (hp : t'.contentAt? p ≠ t.contentAt? p) : ∃ path, paths path ∧ p = path.placeFrom t.here := by
  have hchanged : t'.get? p ≠ t.get? p := fun hsame => hp (contentAt?_congr hsame)
  rcases h.changed p hchanged with ⟨path, hpath, hfile⟩ | ⟨hfree, hmade⟩
  · exact ⟨path, hpath, h.here_eq ▸ hfile.leadsAt.eq_placeFrom (h.hasNoLinks hl)⟩
  · simp [contentAt?, hfree, hmade] at hp

end OnlyChanges

/-! ## Removals -/

/-- The tree `t'` has the files of `t`, and other entries that are no links. -/
structure SameFiles (t t' : FileTree) : Prop where
  here_eq : t'.here = t.here
  no_links : t.HasNoLinks → t'.HasNoLinks
  content_eq : ∀ p, t'.contentAt? p = t.contentAt? p

theorem makeDirectories_sameFiles (t : FileTree) (path : Path) : SameFiles t (t.makeDirectories path).2 := by
  have hmade : OnlyChanges (fun _ => False) t (t.makeDirectories path).2 := .makeDirectories t path
  refine ⟨hmade.here_eq, hmade.hasNoLinks, fun p => ?_⟩
  by_cases hsame : (t.makeDirectories path).2.get? p = t.get? p
  · exact contentAt?_congr hsame
  · rcases hmade.changed p hsame with ⟨_, hnone, -⟩ | ⟨hfree, hdirectory⟩
    · exact hnone.elim
    · simp [contentAt?, hfree, hdirectory]

theorem get?_without {gone : Place → Bool} {p : Place} :
    (t.without gone).get? p = if p ≠ [] ∧ gone p = true then none else t.get? p := by
  by_cases hp : p = []
  · simp [get?, hp]
  unfold get? without
  rw [if_neg hp, if_neg hp]
  dsimp only
  induction t.entries with
  | nil => simp
  | cons e es ih =>
    obtain ⟨q, f⟩ := e
    by_cases hq : p = q
    · subst hq
      by_cases hg : gone p = true
      · simpa [hg, hp] using ih
      · simp [hg]
    · by_cases hg : gone q = true
      · simpa [hg, hp, List.lookup_cons, beq_eq_false_iff_ne.2 hq] using ih
      · simpa [hg, hp, List.lookup_cons, beq_eq_false_iff_ne.2 hq] using ih

theorem remove_eq_ok {path : Path} (hl : t.HasNoLinks) (h : t.remove path = .ok t') :
    t'.here = t.here ∧ t'.HasNoLinks ∧
      ∀ p, t'.contentAt? p ≠ t.contentAt? p → path.placeFrom t.here <+: p := by
  unfold remove at h
  split at h
  · next q e hf =>
    obtain rfl := Except.ok.inj h
    obtain rfl := hl.eq_placeFrom hf
    refine ⟨rfl, fun p target hp => ?_, fun p hp => ?_⟩
    · rw [get?_without] at hp
      split at hp
      · cases hp
      · exact hl p target hp
    · by_contra hno
      refine hp (contentAt?_congr ?_)
      rw [get?_without, if_neg]
      rintro ⟨-, hgone⟩
      exact hno (List.prefix_iff_eq_take.2 (by simpa [eq_comm] using hgone))
  · cases h
  · cases h

/-- Within an extent, the files that come, change or go are those at the paths that may be written, and those at or
below the paths that may be removed. -/
theorem Touched.content_eq (h : Touched e t t') (hl : t.HasNoLinks) :
    t'.here = t.here ∧ t'.HasNoLinks ∧ ∀ p, t'.contentAt? p ≠ t.contentAt? p →
      (∃ path, e.written path ∧ p = path.placeFrom t.here) ∨
        ∃ path, e.removed path ∧ path.placeFrom t.here <+: p := by
  induction h with
  | refl t => exact ⟨rfl, hl, fun p hp => absurd rfl hp⟩
  | @write t t₁ t' path c hpath hw _ ih =>
    obtain ⟨q, -, hq, rfl, hfind, -⟩ := write_put hw
    have hl₁ : (t.put q (.file c)).HasNoLinks := (write_grows hw).1.hasNoLinks hl
    obtain ⟨hhere, hl', hrest⟩ := ih hl₁
    refine ⟨hhere, hl', fun p hp => ?_⟩
    by_cases hsame : (t.put q (.file c)).contentAt? p = t.contentAt? p
    · exact hrest p (hsame ▸ hp)
    · have hpq : p = q := by
        by_contra hne
        exact hsame (contentAt?_congr (by rw [get?_put hq, if_neg hne]))
      exact .inl ⟨path, hpath, hpq.trans (hl₁.eq_placeFrom hfind)⟩
  | @make t t' path _ _ ih =>
    have hsame := makeDirectories_sameFiles t path
    obtain ⟨hhere, hl', hrest⟩ := ih (hsame.no_links hl)
    rw [hsame.here_eq] at hhere hrest
    exact ⟨hhere, hl', fun p hp => hrest p (hsame.content_eq p ▸ hp)⟩
  | @remove t t₁ t' path hpath hr _ ih =>
    obtain ⟨hhere₁, hl₁, hgone⟩ := remove_eq_ok hl hr
    obtain ⟨hhere, hl', hrest⟩ := ih hl₁
    rw [hhere₁] at hhere hrest
    refine ⟨hhere, hl', fun p hp => ?_⟩
    by_cases hsame : t₁.contentAt? p = t.contentAt? p
    · exact hrest p (hsame ▸ hp)
    · exact .inr ⟨path, hpath, hgone p hsame⟩

/-- Changes that remove nothing change only the files at the paths that may be written. -/
theorem Touched.onlyChanges (h : Touched e t t') (hr : ∀ path, ¬e.removed path) : OnlyChanges e.written t t' := by
  induction h with
  | refl t => exact .refl t
  | write hpath hw _ ih => exact (OnlyChanges.write hpath hw).trans ih
  | make _ _ ih => exact (OnlyChanges.makeDirectories _ _).trans ih
  | remove hpath _ _ _ => exact absurd hpath (hr _)

end FileTree

/-! ## Names of entries -/

/-- A name of a path: a file name or the two points. -/
def IsPathName (name : Text) : Prop := name ≠ [] ∧ name ≠ ['.'] ∧ '/' ∉ name

theorem IsPathName.isFileName {name : Text} (h : IsPathName name) (hne : name ≠ ['.', '.']) : IsFileName name :=
  ⟨h.1, h.2.1, hne, h.2.2⟩

def Path.IsProper (path : Path) : Prop := ∀ name ∈ path.names, IsPathName name

theorem Path.isProper_ofText (t : Text) : (ofText t).IsProper := by
  intro name hname
  obtain ⟨hpiece, hname⟩ := List.mem_filter.1 hname
  have hslash : '/' ∉ name := notMem_of_mem_splitOn hpiece
  simpa [IsPathName, hslash] using hname

theorem Path.IsProper.join {p q : Path} (hp : p.IsProper) (hq : q.IsProper) : (p / q).IsProper := by
  cases habs : q.isAbsolute with
  | true => simpa [HDiv.hDiv, Path.join, habs] using hq
  | false =>
    intro name hname
    rw [join_names habs] at hname
    rcases List.mem_append.1 hname with hname | hname
    · exact hp name hname
    · exact hq name hname

theorem Path.IsProper.child {p : Path} (hp : p.IsProper) (name : Text) : (p.child name).IsProper :=
  hp.join (isProper_ofText name)

namespace FileTree

/-- All entries of the tree, and the place from which it is seen, have file names. -/
structure WellNamed (t : FileTree) : Prop where
  here : ∀ name ∈ t.here, IsFileName name
  entries : ∀ e ∈ t.entries, ∀ name ∈ e.1, IsFileName name

/-- Where a walk ends, the places have file names, and the names that are left are those of a path. -/
def Stop.IsNamed : Stop → Prop
  | .at p _ => ∀ name ∈ p, IsFileName name
  | .link p _ names => (∀ name ∈ p, IsFileName name) ∧ ∀ name ∈ names, IsPathName name

theorem Walks.isNamed {t : FileTree} {last : Bool} {names : List Text} {p : Place} {s : Stop}
    (hw : Walks t last names p s) (hnames : ∀ name ∈ names, IsPathName name) (hp : ∀ name ∈ p, IsFileName name) : s.IsNamed := by
  have hadd {name : Text} {p : Place} (hn : IsStep name) (hname : IsPathName name) (hp : ∀ name ∈ p, IsFileName name) :
      ∀ n ∈ p ++ [name], IsFileName n := by
    intro n hmem
    rcases List.mem_append.1 hmem with hmem | hmem
    · exact hp n hmem
    · exact List.mem_singleton.1 hmem ▸ hname.isFileName hn.1
  induction hw with
  | done p => exact hp
  | up _ ih =>
    exact ih (fun n hn => hnames n (List.mem_cons_of_mem _ hn)) fun n hn => hp n (List.dropLast_subset _ hn)
  | free hn _ => exact hadd hn (hnames _ List.mem_cons_self) hp
  | file hn _ => exact hadd hn (hnames _ List.mem_cons_self) hp
  | into hn _ _ ih =>
    exact ih (fun n hn => hnames n (List.mem_cons_of_mem _ hn)) (hadd hn (hnames _ List.mem_cons_self) hp)
  | onLink hn _ _ => exact hadd hn (hnames _ List.mem_cons_self) hp
  | link _ _ _ => exact ⟨hp, fun n hn => hnames n (List.mem_cons_of_mem _ hn)⟩

theorem Follows.isNamed {t : FileTree} {last : Bool} {n : Nat} {names : List Text} {p : Place}
    {r : Place × Option Entry} (hf : Follows t last n names p r) (hnames : ∀ name ∈ names, IsPathName name) (hp : ∀ name ∈ p, IsFileName name) :
    ∀ name ∈ r.1, IsFileName name := by
  induction hf with
  | stop hw => exact hw.isNamed hnames hp
  | @link n names rest p d target r hw _ ih =>
    obtain ⟨hd, hrest⟩ := hw.isNamed hnames hp
    refine ih (fun name hname => ?_) ?_
    · rcases List.mem_append.1 hname with hname | hname
      · exact Path.isProper_ofText target name hname
      · exact hrest name hname
    · split
      · exact fun _ h => absurd h List.not_mem_nil
      · exact hd

theorem mem_putEntry {p : Place} {e : Entry} {es : List (Place × Entry)} {x : Place × Entry}
    (h : x ∈ putEntry p e es) : x = (p, e) ∨ x ∈ es := by
  induction es with
  | nil => exact .inl (List.mem_singleton.1 h)
  | cons y es ih =>
    obtain ⟨q, f⟩ := y
    rw [putEntry] at h
    split at h
    · rcases List.mem_cons.1 h with rfl | h
      · exact .inl rfl
      · exact .inr (List.mem_cons_of_mem _ h)
    · rcases List.mem_cons.1 h with rfl | h
      · exact .inr List.mem_cons_self
      · exact (ih h).imp_right (List.mem_cons_of_mem _)

theorem exists_entry_of_names {t : FileTree} {path : Path} {names : List Text} (hn : t.names path = .ok names)
    {name : Text} (hname : name ∈ names) : ∃ e ∈ t.entries, e.1.getLast? = some name := by
  unfold FileTree.names at hn
  split at hn
  · obtain rfl := Except.ok.inj hn
    obtain ⟨⟨q, f⟩, he, hlast⟩ := List.mem_filterMap.1 hname
    dsimp only at hlast
    split at hlast
    · exact ⟨_, he, hlast⟩
    · cases hlast
  · cases hn
  · cases hn
  · cases hn

namespace WellNamed

variable {t t' : FileTree} {path : Path}

theorem put (h : t.WellNamed) (hpath : path.IsProper) {last : Bool} {p : Place} {old : Option Entry}
    (hf : t.find last path = .ok (p, old)) (e : Entry) : (t.put p e).WellNamed where
  here := h.here
  entries := by
    have hp : ∀ name ∈ p, IsFileName name := by
      refine (find_eq_ok_iff.1 hf).2.isNamed hpath ?_
      split
      · exact fun _ hn => absurd hn List.not_mem_nil
      · exact h.here
    intro x hx
    rcases mem_putEntry hx with rfl | hx
    · exact hp
    · exact h.entries x hx

theorem write (h : t.WellNamed) (hpath : path.IsProper) {c : Content} (hw : t.write path c = .ok t') :
    t'.WellNamed := by
  obtain ⟨p, hf, rfl⟩ := write_eq_ok_iff.1 hw
  rcases hf with hf | ⟨_, hf⟩
  · exact h.put hpath hf _
  · exact h.put hpath hf _

theorem makeDirectories (h : t.WellNamed) (hpath : path.IsProper) : (t.makeDirectories path).2.WellNamed := by
  refine makeAll_of_steps (P := Path.IsProper) (R := fun t t' => t.WellNamed → t'.WellNamed)
    (fun path hp name hn => hp name (List.dropLast_subset _ hn)) (fun _ => id) (fun _ _ _ h h' => h' ∘ h) ?_ hpath _ t h
  intro t t' path hp hm h
  unfold makeDirectory at hm
  split at hm
  · next hf =>
    obtain rfl := Except.ok.inj hm
    exact h.put hp hf _
  · cases hm
  · cases hm

theorem isFileName_of_mem_names (h : t.WellNamed) {names : List Text} (hn : t.names path = .ok names) {name : Text}
    (hname : name ∈ names) : IsFileName name := by
  obtain ⟨e, he, hlast⟩ := exists_entry_of_names hn hname
  exact h.entries e he name (List.mem_of_getLast? hlast)

end WellNamed

end FileTree

end ClientGen
