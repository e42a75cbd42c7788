import ClientGen.Proofs.Files.Extent
/-!
# Places on the way of a path

Where a path leads depends on the places that are looked at on its way. Of a tree from which other places were removed
the path leads to the same file.
-/

namespace ClientGen.FileTree

open Text

variable {t t' t'' : FileTree} {path : Path} {last : Bool} {n : Nat} {names : List Text} {name : Text} {p q : Place}

/-- The places that a walk along names looks at. -/
def walkPlaces (t : FileTree) : List Text → Place → List Place
  | [], _ => []
  | name :: names, p =>
    if name = ['.', '.'] then walkPlaces t names p.dropLast
    else
      (p ++ [name]) ::
        match t.get? (p ++ [name]) with
        | some .directory => walkPlaces t names (p ++ [name])
        | _ => []

/-- The places that are looked at when names are followed through at most `n` links. -/
def followPlaces (t : FileTree) (last : Bool) : (n : Nat) → List Text → Place → List Place
  | 0, names, p => t.walkPlaces names p
  | n + 1, names, p =>
    t.walkPlaces names p ++
      match t.walk last names p with
      | .ok (.link directory target rest) =>
        followPlaces t last n ((Path.ofText target).names ++ rest)
          (if (Path.ofText target).isAbsolute then [] else directory)
      | _ => []

/-- The places that are looked at on the way of a path. -/
def placesOn (t : FileTree) (last : Bool) (path : Path) : List Place :=
  t.followPlaces last maxLinks path.names (if path.isAbsolute then [] else t.here)

theorem walk_congr (h : ∀ q ∈ t.walkPlaces names p, t'.get? q = t.get? q) :
    t'.walk last names p = t.walk last names p := by
  induction names generalizing p with
  | nil => rfl
  | cons name names ih =>
    rw [walkPlaces] at h
    rw [walk, walk]
    split
    · next hup =>
      rw [if_pos hup] at h
      exact ih h
    · next hup =>
      rw [if_neg hup] at h
      have hfirst := h _ List.mem_cons_self
      dsimp only
      rw [hfirst]
      cases hq : t.get? (p ++ [name]) with
      | none => rfl
      | some e =>
        cases e with
        | file c => rfl
        | link target => rfl
        | directory =>
          dsimp only
          rw [ih fun q hmem => h q (List.mem_cons_of_mem _ (by rw [hq]; exact hmem))]

theorem follow_congr (h : ∀ q ∈ t.followPlaces last n names p, t'.get? q = t.get? q) :
    t'.follow last n names p = t.follow last n names p := by
  induction n generalizing names p with
  | zero =>
    rw [followPlaces] at h
    rw [follow, follow, walk_congr h]
  | succ n ih =>
    rw [followPlaces] at h
    have hwalk : t'.walk last names p = t.walk last names p :=
      walk_congr fun q hq => h q (List.mem_append_left _ hq)
    rw [follow, follow, hwalk]
    cases hw : t.walk last names p with
    | error e => rfl
    | ok s =>
      cases s with
      | «at» q e => rfl
      | link d target rest =>
        apply ih
        intro q hq
        apply h
        rw [hw]
        exact List.mem_append_right _ hq

/-- A path leads to the same where the places on its way are the same. -/
theorem find_congr (hh : t'.here = t.here) (h : ∀ q ∈ t.placesOn last path, t'.get? q = t.get? q) :
    t'.find last path = t.find last path := by
  unfold find
  rw [hh, follow_congr h]

/-! ## Without links -/

theorem prefix_of_mem_walkPlaces (hnames : ∀ name ∈ names, name ≠ ['.', '.']) (hq : q ∈ t.walkPlaces names p) :
    q <+: p ++ names := by
  induction names generalizing p with
  | nil => cases hq
  | cons name names ih =>
    have hall : p ++ name :: names = p ++ [name] ++ names := by simp
    rw [walkPlaces, if_neg (hnames name List.mem_cons_self)] at hq
    rw [hall]
    rcases List.mem_cons.1 hq with rfl | hq
    · exact List.prefix_append _ _
    · split at hq
      · exact ih (fun m hm => hnames m (List.mem_cons_of_mem _ hm)) hq
      · cases hq

theorem followPlaces_of_noLinks (hl : t.HasNoLinks) : t.followPlaces last n names p = t.walkPlaces names p := by
  cases n with
  | zero => rfl
  | succ n =>
    rw [followPlaces]
    split
    · next hw =>
      obtain ⟨e, he⟩ := (walk_eq_ok_iff.1 hw).at_place hl
      cases he
    · exact List.append_nil _

theorem foldl_stepFrom (hnames : ∀ name ∈ names, name ≠ ['.', '.']) :
    names.foldl Path.stepFrom p = p ++ names := by
  induction names generalizing p with
  | nil => simp
  | cons name names ih =>
    rw [List.foldl_cons, ih fun m hm => hnames m (List.mem_cons_of_mem _ hm), Path.stepFrom,
      if_neg (hnames name List.mem_cons_self)]
    simp

/-! ## Removals -/

/-- What is found in `t'` stands in `t`. -/
structure Shrinks (t t' : FileTree) : Prop where
  here_eq : t'.here = t.here
  get?_eq : ∀ p, t'.get? p = t.get? p ∨ t'.get? p = none

namespace Shrinks

theorem refl (t : FileTree) : Shrinks t t := ⟨rfl, fun _ => .inl rfl⟩

theorem trans (h : Shrinks t t') (h' : Shrinks t' t'') : Shrinks t t'' where
  here_eq := h'.here_eq.trans h.here_eq
  get?_eq p := by
    rcases h'.get?_eq p with hp | hp
    · rw [hp]
      exact h.get?_eq p
    · exact .inr hp

theorem kept (h : Shrinks t t') : t'.Kept t := by
  intro p e he
  rcases h.get?_eq p with hp | hp
  · exact ⟨e, hp ▸ he, .refl e⟩
  · rw [he] at hp
    cases hp

/-- Something that is found where places were removed was found there before. -/
theorem find (h : Shrinks t t') {e : Entry} (hf : t'.find last path = .ok (p, some e)) :
    ∃ e', t.find last path = .ok (p, some e') := by
  obtain ⟨e', hf', -⟩ := find_kept h.kept h.here_eq.symm hf
  exact ⟨e', hf'⟩

theorem find_file (h : Shrinks t t') {c : Content} (hf : t'.find last path = .ok (p, some (.file c))) :
    t.find last path = .ok (p, some (.file c)) := by
  obtain ⟨e, hf', he⟩ := find_kept h.kept h.here_eq.symm hf
  cases he with
  | file _ c' =>
    have hget := get?_of_find_file hf
    have hget' := get?_of_find_file hf'
    rcases h.get?_eq p with hp | hp
    · rw [hp, hget'] at hget
      rw [hf', Option.some.inj hget]
    · rw [hget] at hp
      cases hp

end Shrinks

theorem remove_shrinks (h : t.remove path = .ok t') :
    Shrinks t t' ∧ ∃ d e, t.find false path = .ok (d, some e) ∧ ∀ q, ¬d <+: q → t'.get? q = t.get? q := by
  unfold remove at h
  split at h
  · next d e hf =>
    obtain rfl := Except.ok.inj h
    refine ⟨⟨rfl, fun q => ?_⟩, d, e, hf, fun q hq => ?_⟩
    · rw [get?_without]
      split
      · exact .inr rfl
      · exact .inl rfl
    · rw [get?_without, if_neg]
      rintro ⟨-, hgone⟩
      exact hq (List.prefix_iff_eq_take.2 (by simpa [eq_comm] using hgone))
  · cases h
  · cases h

/-- No entry of a directory stands on the way of a path, but for the one that is kept. -/
def SparesWay (t : FileTree) (directory : Path) (keep : Text) (path : Path) : Prop :=
  ∀ names, t.names directory = .ok names → ∀ name ∈ names, name ≠ keep →
    ∀ d e, t.find false (directory.child name) = .ok (d, some e) → ∀ q ∈ t.placesOn true path, ¬d <+: q

/-- Without links, and without points in the path of the directory, the way to a file of the directory is spared. -/
theorem SparesWay.of_noLinks {directory : Path} {keep : Text} (hl : t.HasNoLinks) (hn : t.WellNamed)
    (hkeep : IsFileName keep) (hdirectory : ∀ name ∈ directory.names, name ≠ ['.', '.']) :
    t.SparesWay directory keep (directory.child keep) := by
  intro names hnames name hname hne d e hf q hq hbelow
  have hfile := hn.isFileName_of_mem_names hnames hname
  have hplace : directory.placeFrom t.here =
      (if directory.isAbsolute then [] else t.here) ++ directory.names := foldl_stepFrom hdirectory
  have hplain : ∀ m ∈ directory.names ++ [keep], m ≠ ['.', '.'] := by
    intro m hm
    rcases List.mem_append.1 hm with hm | hm
    · exact hdirectory m hm
    · exact List.mem_singleton.1 hm ▸ hkeep.ne_points
  obtain rfl := hl.eq_placeFrom hf
  rw [placesOn, followPlaces_of_noLinks hl, Path.child_of_isFileName _ hkeep] at hq
  -- Both are one name longer than the directory, so that they are equal, and so are the names.
  have hlast := (hbelow.trans (prefix_of_mem_walkPlaces hplain hq))
  rw [Path.placeFrom_child _ _ hfile, hplace, List.append_assoc] at hlast
  have hnames' := (List.prefix_append_right_inj _).1 hlast
  have heq := List.IsPrefix.eq_of_length hnames' (by simp)
  exact hne (by simpa using heq)

end ClientGen.FileTree
