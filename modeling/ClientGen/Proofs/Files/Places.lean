import ClientGen.Proofs.Files.Writes
import ClientGen.Proofs.Text.Lines
/-!
# Places of paths

In a tree without links, the place to which a path leads is written by its names. Paths that write different
places are apart there.
-/

namespace ClientGen

open Text

/-- A text that is the name of one file: not empty, not a point, not two points, and without slashes. -/
structure IsFileName (name : Text) : Prop where
  ne_nil : name ≠ []
  ne_point : name ≠ ['.']
  ne_points : name ≠ ['.', '.']
  no_slash : '/' ∉ name

instance (name : Text) : Decidable (IsFileName name) :=
  decidable_of_iff (name ≠ [] ∧ name ≠ ['.'] ∧ name ≠ ['.', '.'] ∧ '/' ∉ name)
    ⟨fun h => ⟨h.1, h.2.1, h.2.2.1, h.2.2.2⟩, fun h => ⟨h.ne_nil, h.ne_point, h.ne_points, h.no_slash⟩⟩

namespace Path

/-- The place behind a name: two points lead back. -/
def stepFrom (p : Place) (name : Text) : Place := if name = ['.', '.'] then p.dropLast else p ++ [name]

/-- The place that a path writes, as seen from `here`. -/
def placeFrom (here : Place) (path : Path) : Place :=
  path.names.foldl stepFrom (if path.isAbsolute then [] else here)

theorem child_of_isFileName (path : Path) {name : Text} (h : IsFileName name) :
    path.child name = ⟨path.root, path.names ++ [name]⟩ := by
  have hsplit : splitOn '/' name = [name] := splitOn_of_notMem h.no_slash
  have hroot : rootOf name = [] := by
    obtain ⟨c, cs, rfl⟩ := List.exists_cons_of_ne_nil h.ne_nil
    have hc : c ≠ '/' := fun heq => h.no_slash (heq ▸ List.mem_cons_self)
    simp [rootOf, hc]
  have hname : ofText name = ⟨[], [name]⟩ := by
    simp [ofText, hsplit, hroot, h.ne_nil, h.ne_point]
  rw [child, hname]
  rfl

theorem placeFrom_child (here : Place) (path : Path) {name : Text} (h : IsFileName name) :
    (path.child name).placeFrom here = path.placeFrom here ++ [name] := by
  rw [child_of_isFileName path h, placeFrom, List.foldl_append]
  exact if_neg h.ne_points

end Path

namespace FileTree

variable {t : FileTree}

def HasNoLinks (t : FileTree) : Prop := ∀ p target, t.get? p ≠ some (.link target)

theorem HasNoLinks.of_entries (h : ∀ e ∈ t.entries, ∀ target, e.2 ≠ .link target) : t.HasNoLinks := by
  intro p target hp
  unfold get? at hp
  split at hp
  · cases hp
  · obtain ⟨before, after, hentries, -⟩ := List.lookup_eq_some_iff.1 hp
    exact h (p, .link target) (by simp [hentries]) target rfl

theorem Grows.hasNoLinks {paths : List Path} {t' : FileTree} (hg : Grows paths t t') (h : t.HasNoLinks) :
    t'.HasNoLinks :=
  fun p target hp => h p target (hg.links_old p target hp)

theorem Walks.at_place (h : t.HasNoLinks) {last : Bool} {names : List Text} {p : Place} {s : Stop}
    (hw : Walks t last names p s) : ∃ e, s = .at (names.foldl Path.stepFrom p) e := by
  have hstep {name : Text} (hn : IsStep name) (p : Place) : Path.stepFrom p name = p ++ [name] := if_neg hn.1
  induction hw with
  | done p => exact ⟨_, rfl⟩
  | up _ ih => exact ih
  | free hn _ => exact ⟨_, by rw [List.foldl_cons, hstep hn]; rfl⟩
  | file hn _ => exact ⟨_, by rw [List.foldl_cons, hstep hn]; rfl⟩
  | into hn _ _ ih =>
    rw [List.foldl_cons, hstep hn]
    exact ih
  | onLink _ hq _ => exact absurd hq (h _ _)
  | link _ hq _ => exact absurd hq (h _ _)

theorem HasNoLinks.eq_placeFrom (h : t.HasNoLinks) {last : Bool} {path : Path} {p : Place} {e : Option Entry}
    (hf : t.find last path = .ok (p, e)) : p = path.placeFrom t.here := by
  cases (find_eq_ok_iff.1 hf).2 with
  | stop hw =>
    obtain ⟨e', heq⟩ := hw.at_place h
    cases heq
    rfl
  | link hw _ =>
    obtain ⟨e', heq⟩ := hw.at_place h
    cases heq

theorem LeadsAt.eq_placeFrom (h : t.HasNoLinks) {path : Path} {p : Place} (hl : t.LeadsAt path p) :
    p = path.placeFrom t.here := by
  obtain ⟨e, hf⟩ := hl
  exact h.eq_placeFrom hf

theorem LeadsAt.getLast?_child (h : t.HasNoLinks) {path : Path} {name : Text} {p : Place}
    (hl : t.LeadsAt (path.child name) p) (hname : IsFileName name) : p.getLast? = some name := by
  rw [hl.eq_placeFrom h, Path.placeFrom_child _ _ hname, List.getLast?_concat]

/-- In a tree without links, paths that write different places are apart. -/
theorem HasNoLinks.apart (h : t.HasNoLinks) {paths : List Path}
    (hn : (paths.map (Path.placeFrom t.here)).Nodup) : t.Apart paths := by
  apply (List.pairwise_map.1 hn).imp
  intro q r hne p hq hr
  exact hne ((hq.eq_placeFrom h).symm.trans (hr.eq_placeFrom h))

end FileTree

end ClientGen
