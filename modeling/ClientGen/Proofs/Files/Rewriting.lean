import ClientGen.Proofs.Files.Places
/-!
# Writing again

Writing a text to a file that is there changes one place, and a directory that is there is not made again. Trees
that differ in the texts of files alone are alike, and equal if at every place the same text is found.
-/

namespace ClientGen.FileTree

variable {t t' t'' : FileTree} {path : Path}

/-! ## Texts at places -/

def textAt? (t : FileTree) (p : Place) : Option Text :=
  match t.get? p with
  | some (.file (.text u)) => some u
  | _ => none

theorem textAt?_eq_some_iff {p : Place} {u : Text} :
    t.textAt? p = some u ↔ t.get? p = some (.file (.text u)) := by
  unfold textAt?
  constructor
  · intro h
    split at h
    · next hp => rw [hp, Option.some.inj h]
    · cases h
  · intro h
    rw [h]

theorem textAt?_congr {p : Place} (h : t'.get? p = t.get? p) : t'.textAt? p = t.textAt? p := by
  unfold textAt?
  rw [h]

theorem textAt?_of_find {last : Bool} {p : Place} {u : Text}
    (h : t.find last path = .ok (p, some (.file (.text u)))) : t.textAt? p = some u :=
  textAt?_eq_some_iff.2 (get?_of_find_file h)

theorem textAt?_of_free {last : Bool} {p : Place} (h : t.find last path = .ok (p, none)) : t.textAt? p = none := by
  unfold textAt?
  rw [get?_of_find_free h]

/-- A text that is written stands at the place of its path, and nowhere else does anything change. -/
theorem textAt?_write {u : Text} (h : t.write path (.text u) = .ok t') :
    ∃ p, (t.find true path = .ok (p, none) ∨ ∃ old, t.find true path = .ok (p, some (.file old))) ∧
      t'.find true path = .ok (p, some (.file (.text u))) ∧
      ∀ q, t'.textAt? q = if q = p then some u else t.textAt? q := by
  obtain ⟨p, hf, hp, rfl, hfind, -⟩ := write_put h
  refine ⟨p, hf, hfind, fun q => ?_⟩
  by_cases hq : q = p
  · rw [if_pos hq, textAt?_eq_some_iff, get?_put hp, if_pos hq]
  · rw [if_neg hq]
    exact textAt?_congr (by rw [get?_put hp, if_neg hq])

private theorem textAt?_makeDirectory (t t' : FileTree) (path : Path) (h : t.makeDirectory path = .ok t') :
    ∀ q, t'.textAt? q = t.textAt? q := by
  intro q
  unfold makeDirectory at h
  split at h
  · next p hf =>
    obtain rfl := Except.ok.inj h
    have hfree := get?_of_find_free hf
    have hp : p ≠ [] := by
      rintro rfl
      exact Option.some_ne_none _ hfree
    by_cases hq : q = p
    · have hnone : t.textAt? q = none := by rw [hq, textAt?, hfree]
      rw [hnone, textAt?, get?_put hp, if_pos hq]
    · exact textAt?_congr (by rw [get?_put hp, if_neg hq])
  · cases h
  · cases h

theorem textAt?_makeDirectories (t : FileTree) (path : Path) (q : Place) :
    (t.makeDirectories path).2.textAt? q = t.textAt? q :=
  makeAll_of_steps (P := fun _ => True) (R := fun t t' => ∀ q, t'.textAt? q = t.textAt? q) (fun _ _ => trivial)
    (fun _ _ => rfl) (fun _ _ _ h h' q => (h' q).trans (h q)) (fun t t' path _ => textAt?_makeDirectory t t' path)
    trivial _ t q

/-! ## Directories that are there -/

section Walk

variable {n : Nat} {names : List Text} {name : Text} {p : Place}

private theorem Walks.directory {q : Place} {e : Option Entry} (h : Walks t true (names ++ [name]) p (.at q e)) :
    ∃ d, Walks t true names p (.at d (some .directory)) := by
  induction names generalizing p with
  | nil => exact ⟨p, .done p⟩
  | cons first names ih =>
    generalize hall : first :: names ++ [name] = all at h
    cases h with
    | done p => cases hall
    | up h =>
      obtain ⟨rfl, rfl⟩ := List.cons_eq_cons.1 hall
      obtain ⟨d, hd⟩ := ih h
      exact ⟨d, .up hd⟩
    | free hs hq => simp at hall
    | file hs hq => simp at hall
    | into hs hq h =>
      obtain ⟨rfl, rfl⟩ := List.cons_eq_cons.1 hall
      obtain ⟨d, hd⟩ := ih h
      exact ⟨d, .into hs hq hd⟩
    | onLink hs hq hl => cases hl

/-- A walk that stops at a link does so before its last name, or the names before lead to a directory. -/
private theorem Walks.directory_or_link {d : Place} {target : Text} {rest : List Text}
    (h : Walks t true (names ++ [name]) p (.link d target rest)) :
    (∃ q, Walks t true names p (.at q (some .directory))) ∨
      ∃ before, rest = before ++ [name] ∧ Walks t true names p (.link d target before) := by
  induction names generalizing p with
  | nil => exact .inl ⟨p, .done p⟩
  | cons first names ih =>
    generalize hall : first :: names ++ [name] = all at h
    cases h with
    | up h =>
      obtain ⟨rfl, rfl⟩ := List.cons_eq_cons.1 hall
      rcases ih h with ⟨q, hq⟩ | ⟨before, rfl, hb⟩
      · exact .inl ⟨q, .up hq⟩
      · exact .inr ⟨before, rfl, .up hb⟩
    | into hs hq h =>
      obtain ⟨rfl, rfl⟩ := List.cons_eq_cons.1 hall
      rcases ih h with ⟨q, hd⟩ | ⟨before, rfl, hb⟩
      · exact .inl ⟨q, .into hs hq hd⟩
      · exact .inr ⟨before, rfl, .into hs hq hb⟩
    | link hs hq hl =>
      obtain ⟨rfl, rfl⟩ := List.cons_eq_cons.1 hall
      exact .inr ⟨names, rfl, .link hs hq (.inr rfl)⟩

private theorem Follows.directory {all : List Text} {r : Place × Option Entry} (h : Follows t true n all p r)
    (hall : all = names ++ [name]) : ∃ d, Follows t true n names p (d, some .directory) := by
  induction h generalizing names with
  | stop h =>
    subst hall
    obtain ⟨d, hd⟩ := h.directory
    exact ⟨d, .stop hd⟩
  | link h _ ih =>
    subst hall
    rcases h.directory_or_link with ⟨q, hq⟩ | ⟨before, rfl, hb⟩
    · exact ⟨q, .stop hq⟩
    · obtain ⟨d, hd⟩ := ih (List.append_assoc _ _ _).symm
      exact ⟨d, .link hb hd⟩

private theorem Walks.unfollowed {s : Stop} (h : Walks t true names p s) :
    Walks t false names p s ∨ ∃ q target, Walks t false names p (.at q (some (.link target))) := by
  induction h with
  | done p => exact .inl (.done p)
  | up _ ih => exact ih.imp .up fun ⟨q, target, h⟩ => ⟨q, target, .up h⟩
  | free hs hq => exact .inl (.free hs hq)
  | file hs hq => exact .inl (.file hs hq)
  | into hs hq _ ih => exact ih.imp (.into hs hq) fun ⟨q, target, h⟩ => ⟨q, target, .into hs hq h⟩
  | onLink hs hq hl => cases hl
  | @link name target names p hs hq hl =>
    by_cases hnames : names = []
    · subst hnames
      exact .inr ⟨_, target, .onLink hs hq rfl⟩
    · exact .inl (.link hs hq (.inl hnames))

private theorem Follows.unfollowed {r : Place × Option Entry} (h : Follows t true n names p r) (hr : r.2 ≠ none) :
    ∃ q e, Follows t false n names p (q, some e) := by
  induction h with
  | @stop _ _ _ q e h =>
    obtain ⟨e, rfl⟩ := Option.ne_none_iff_exists'.1 hr
    rcases h.unfollowed with h | ⟨q, target, h⟩
    · exact ⟨q, e, .stop h⟩
    · exact ⟨q, _, .stop h⟩
  | link h _ ih =>
    obtain ⟨q, e, hf⟩ := ih hr
    rcases h.unfollowed with h | ⟨q, target, h⟩
    · exact ⟨q, e, .link h hf⟩
    · exact ⟨q, _, .stop h⟩

end Walk

theorem find_parent {r : Place × Option Entry} (h : t.find true path = .ok r) :
    ∃ d, t.find true path.parent = .ok (d, some .directory) := by
  obtain ⟨root, names⟩ := path
  obtain ⟨hz, hf⟩ := find_eq_ok_iff.1 h
  rcases List.eq_nil_or_concat names with rfl | ⟨names, name, rfl⟩
  · exact ⟨_, find_eq_ok_iff.2 ⟨hz, .stop (.done _)⟩⟩
  rw [List.concat_eq_append] at hz hf
  obtain ⟨d, hd⟩ := hf.directory rfl
  have hparent : Path.parent ⟨root, names.concat name⟩ = ⟨root, names⟩ := by
    rw [Path.parent, List.concat_eq_append, List.dropLast_concat]
  refine ⟨d, hparent ▸ find_eq_ok_iff.2 ⟨?_, hd⟩⟩
  simp only [Path.hasZero, List.any_append, Bool.or_eq_false_iff] at hz
  exact hz.1

/-- The directory in which a file is looked for is there, if the path of the file leads anywhere. -/
theorem find_directory {name : Text} (hn : IsFileName name) {r : Place × Option Entry}
    (h : t.find true (path.child name) = .ok r) : ∃ d, t.find true path = .ok (d, some .directory) := by
  have hparent : (path.child name).parent = path := by
    rw [Path.child_of_isFileName path hn, Path.parent, List.dropLast_concat]
  exact hparent ▸ find_parent h

section Directory

variable {d : Place} (h : t.find true path = .ok (d, some .directory))
include h

private theorem makeDirectory_of_directory : t.makeDirectory path = .error .occupied := by
  obtain ⟨hz, hf⟩ := find_eq_ok_iff.1 h
  obtain ⟨q, e, hf⟩ := hf.unfollowed (Option.some_ne_none _)
  unfold makeDirectory
  rw [find_eq_ok_iff.2 ⟨hz, hf⟩]

private theorem unlessDirectory_of_directory : t.unlessDirectory path .occupied = (.ok (), t) := by
  have hdirectory : t.isDirectory path = .ok true := by
    unfold isDirectory leadsTo
    rw [h]
    rfl
  simp [unlessDirectory, hdirectory]

theorem makeDirectories_of_directory : t.makeDirectories path = (.ok (), t) := by
  have hmade := makeDirectory_of_directory h
  have hunless := unlessDirectory_of_directory h
  unfold makeDirectories makeAll
  cases path.names.length <;> simp [hmade, hunless]

end Directory

private theorem not_directory_of_unlessDirectory {e e' : FileError} (hm : t.makeDirectory path = .error e)
    (h : t.unlessDirectory path e = (.error e', t')) (d : Place) : t'.find true path ≠ .ok (d, some .directory) := by
  have ht : t' = t := by rw [← unlessDirectory_snd t path e, h]
  intro hd
  rw [ht] at hd
  rw [makeDirectory_of_directory hd] at hm
  obtain rfl := Except.error.inj hm
  rw [unlessDirectory_of_directory hd] at h
  cases (Prod.mk.inj h).1

private theorem not_directory_of_missing (hm : t.makeDirectory path = .error .missing) (d : Place) :
    t.find true path ≠ .ok (d, some .directory) := by
  intro hd
  rw [makeDirectory_of_directory hd] at hm
  cases hm

private theorem not_directory_of_makeAll {count : Nat} {e : FileError} (h : makeAll path count t = (.error e, t'))
    (d : Place) : t'.find true path ≠ .ok (d, some .directory) := by
  induction count generalizing path t t' e d with
  | zero =>
    unfold makeAll at h
    split at h
    · cases (Prod.mk.inj h).1
    · next hm _ =>
      obtain ⟨-, rfl⟩ := Prod.mk.inj h
      exact not_directory_of_missing hm d
    · next heq => cases heq
    · next hm _ _ => exact not_directory_of_unlessDirectory hm h d
  | succ count ih =>
    unfold makeAll at h
    split at h
    · cases (Prod.mk.inj h).1
    · next heq => cases heq
    · next heq =>
      cases heq
      split at h
      · split at h
        · cases (Prod.mk.inj h).1
        · next hm =>
          obtain ⟨-, rfl⟩ := Prod.mk.inj h
          exact not_directory_of_missing hm d
        · next hm => exact not_directory_of_unlessDirectory hm h d
      · -- the directory above could not be made, so that it is not there either
        intro hd
        obtain ⟨d', hd'⟩ := find_parent hd
        exact ih h d' hd'
    · next hm _ _ => exact not_directory_of_unlessDirectory hm h d

theorem not_directory_of_makeDirectories {e : FileError} (h : t.makeDirectories path = (.error e, t')) (d : Place) :
    t'.find true path ≠ .ok (d, some .directory) :=
  not_directory_of_makeAll h d

/-- A path leads to a place at which a file stands. -/
def FileAt (t : FileTree) (path : Path) (p : Place) : Prop := ∃ c, t.find true path = .ok (p, some (.file c))

theorem FileAt.leadsAt {p : Place} (h : t.FileAt path p) : t.LeadsAt path p := by
  obtain ⟨c, hf⟩ := h
  exact ⟨.file c, hf⟩

theorem FileAt.kept {p : Place} (h : t.FileAt path p) (hk : t.Kept t') (hh : t'.here = t.here) :
    t'.FileAt path p := by
  obtain ⟨c, hf⟩ := h
  obtain ⟨e, hf', he⟩ := find_kept hk hh hf
  cases he with
  | file _ c' => exact ⟨c', hf'⟩

theorem FileAt.find_text {p : Place} {u : Text} (h : t.FileAt path p) (ht : t.textAt? p = some u) :
    t.find true path = .ok (p, some (.file (.text u))) := by
  obtain ⟨c, hf⟩ := h
  have hget := get?_of_find_file hf
  rw [textAt?_eq_some_iff.1 ht] at hget
  rw [hf, ← Option.some.inj hget]

theorem FileAt.unique {p q : Place} (h : t.FileAt path p) (hq : t.LeadsAt path q) : q = p := by
  obtain ⟨c, hf⟩ := h
  obtain ⟨e, hf'⟩ := hq
  exact (Prod.mk.inj (Except.ok.inj (hf'.symm.trans hf))).1

/-- Where everything stays, a path to a file goes on leading to one place. -/
theorem FileAt.leadsAt_iff {p q : Place} (h : t.FileAt path p) (hk : t.Kept t') (hh : t'.here = t.here) :
    t'.LeadsAt path q ↔ q = p := by
  have h' := h.kept hk hh
  constructor
  · exact h'.unique
  · rintro rfl
    exact h'.leadsAt

/-! ## Trees that differ in texts -/

/-- The same entries, up to the texts of files. -/
structure Like (t t' : FileTree) : Prop where
  here_eq : t'.here = t.here
  get?_like : ∀ p, t'.get? p = t.get? p ∨
    ∃ u u', t.get? p = some (.file (.text u)) ∧ t'.get? p = some (.file (.text u'))

namespace Like

theorem refl (t : FileTree) : Like t t := ⟨rfl, fun _ => .inl rfl⟩

theorem symm (h : Like t t') : Like t' t where
  here_eq := h.here_eq.symm
  get?_like p := by
    rcases h.get?_like p with hp | ⟨u, u', hu, hu'⟩
    · exact .inl hp.symm
    · exact .inr ⟨u', u, hu', hu⟩

theorem trans (h : Like t t') (h' : Like t' t'') : Like t t'' where
  here_eq := h'.here_eq.trans h.here_eq
  get?_like p := by
    rcases h.get?_like p with hp | ⟨u, u', hu, hu'⟩
    · rw [← hp]
      exact h'.get?_like p
    · rcases h'.get?_like p with hp' | ⟨-, u'', -, hu''⟩
      · exact .inr ⟨u, u', hu, hp'.trans hu'⟩
      · exact .inr ⟨u, u'', hu, hu''⟩

theorem kept (h : Like t t') : t.Kept t' := by
  intro p e he
  rcases h.get?_like p with hp | ⟨u, u', hu, hu'⟩
  · exact ⟨e, hp.trans he, .refl e⟩
  · obtain rfl := Option.some.inj (he.symm.trans hu)
    exact ⟨_, hu', .file _ _⟩

theorem leadsAt (h : Like t t') {p : Place} (hl : t.LeadsAt path p) : t'.LeadsAt path p := by
  obtain ⟨e, hf⟩ := hl
  obtain ⟨e', hf', -⟩ := find_kept h.kept h.here_eq hf
  exact ⟨e', hf'⟩

theorem leadsAt_iff (h : Like t t') {p : Place} : t'.LeadsAt path p ↔ t.LeadsAt path p :=
  ⟨h.symm.leadsAt, h.leadsAt⟩

/-- A path that leads to a text leads to a text at the same place. -/
theorem find_text (h : Like t t') {p : Place} {u : Text} (hf : t.find true path = .ok (p, some (.file (.text u)))) :
    ∃ u', t'.find true path = .ok (p, some (.file (.text u'))) := by
  obtain ⟨e', hf', he⟩ := find_kept h.kept h.here_eq hf
  cases he with
  | file c c' =>
    have hget := get?_of_find_file hf
    have hget' := get?_of_find_file hf'
    rcases h.get?_like p with hp | ⟨-, u', -, hu'⟩
    · rw [hp, hget] at hget'
      exact ⟨u, Option.some.inj hget' ▸ hf'⟩
    · rw [hu'] at hget'
      exact ⟨u', Option.some.inj hget' ▸ hf'⟩

theorem get?_eq (h : Like t t') (ht : ∀ p, t'.textAt? p = t.textAt? p) (p : Place) : t'.get? p = t.get? p := by
  rcases h.get?_like p with hp | ⟨u, u', hu, hu'⟩
  · exact hp
  · have htext := ht p
    rw [textAt?_eq_some_iff.2 hu, textAt?_eq_some_iff.2 hu'] at htext
    rw [hu, hu', Option.some.inj htext]

end Like

/-- A text can be written over a text, and the trees before and behind are alike. -/
theorem write_of_text {p : Place} {old : Text} (h : t.find true path = .ok (p, some (.file (.text old)))) (u : Text) :
    ∃ t', t.write path (.text u) = .ok t' ∧ Like t t' ∧ t'.find true path = .ok (p, some (.file (.text u))) ∧
      ∀ q, t'.textAt? q = if q = p then some u else t.textAt? q := by
  have hw : t.write path (.text u) = .ok (t.put p (.file (.text u))) := write_eq_ok_iff.2 ⟨p, .inr ⟨_, h⟩, rfl⟩
  have hget := get?_of_find_file h
  have hp : p ≠ [] := by
    rintro rfl
    cases hget
  have hlike : Like t (t.put p (.file (.text u))) := by
    refine ⟨rfl, fun q => ?_⟩
    by_cases hq : q = p
    · subst hq
      exact .inr ⟨old, u, hget, by rw [get?_put hp, if_pos rfl]⟩
    · exact .inl (by rw [get?_put hp, if_neg hq])
  obtain ⟨p', -, hfind, htext⟩ := textAt?_write hw
  obtain ⟨u', hfind'⟩ := hlike.find_text h
  obtain ⟨rfl, -⟩ := Prod.mk.inj (Except.ok.inj (hfind'.symm.trans hfind))
  exact ⟨_, hw, hlike, hfind, htext⟩

end ClientGen.FileTree
