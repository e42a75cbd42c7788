import ClientGen.Proofs.Files.Extent
/-!
# Mishaps of lookups

A path that cannot be looked up at all has a name that no file can have, or a link on its way has one. Writing texts,
making directories and removing files bring such names and bytes that are no text into a tree from nowhere but the
paths that are used.
-/

namespace ClientGen

open Text

/-- The lookup failed for one of the names: it is too long, or holds the character zero. -/
def FileError.BlamesName (named : Text → Prop) : FileError → Prop
  | .tooLong => ∃ name, named name ∧ FileTree.maxNameBytes < (String.ofList name).utf8ByteSize
  | .badName => ∃ name, named name ∧ '\x00' ∈ name
  | _ => False

namespace FileTree

variable {named : Text → Prop} {t t' t'' : FileTree} {path : Path} {last : Bool} {names : List Text} {p q : Place}
  {e : FileError}

/-- The name stands in a link of the tree, or at the end of one of its places. -/
def Mentions (t : FileTree) (name : Text) : Prop :=
  (∃ p target, t.get? p = some (.link target) ∧ name ∈ (Path.ofText target).names) ∨
    ∃ e ∈ t.entries, ∃ final, e.1.getLast? = some final ∧ name ∈ (Path.ofText final).names

/-! ## Lookups that fail -/

/-- What a walk fails for is not there, or a name is to blame. -/
def IsMishap (named : Text → Prop) (e : FileError) : Prop :=
  e = .missing ∨ e = .notDirectory ∨ e = .tooManyLinks ∨ e = .tooLong ∧ e.BlamesName named

theorem IsMishap.ne_badName (h : IsMishap named e) : e ≠ .badName := by
  rintro rfl
  simp [IsMishap] at h

theorem walk_eq_error (h : t.walk last names p = .error e) (hn : ∀ name ∈ names, named name) : IsMishap named e := by
  induction names generalizing p with
  | nil => cases h
  | cons name names ih =>
    have hrest : ∀ name ∈ names, named name := fun n hmem => hn n (List.mem_cons_of_mem _ hmem)
    rw [walk] at h
    split at h
    · exact ih h hrest
    split at h
    · next hlong =>
      cases h
      exact .inr (.inr (.inr ⟨rfl, name, hn name List.mem_cons_self, hlong⟩))
    dsimp only at h
    split at h
    · split at h
      · cases h
      · cases h
        exact .inl rfl
    · split at h
      · cases h
      · cases h
        exact .inr (.inl rfl)
    · exact ih h hrest
    · split at h
      · cases h
      · cases h

theorem Walks.of_link {s : Stop} (hw : Walks t last names p s) {d : Place} {target : Text} {rest : List Text}
    (hs : s = .link d target rest) : (∃ q, t.get? q = some (.link target)) ∧ ∀ name ∈ rest, name ∈ names := by
  induction hw with
  | done p => cases hs
  | up _ ih =>
    obtain ⟨hlink, hrest⟩ := ih hs
    exact ⟨hlink, fun n hmem => List.mem_cons_of_mem _ (hrest n hmem)⟩
  | free hn hq => cases hs
  | file hn hq => cases hs
  | into hn hq _ ih =>
    obtain ⟨hlink, hrest⟩ := ih hs
    exact ⟨hlink, fun n hmem => List.mem_cons_of_mem _ (hrest n hmem)⟩
  | onLink hn hq hl => cases hs
  | link hn hq hl =>
    cases hs
    exact ⟨⟨_, hq⟩, fun n hmem => List.mem_cons_of_mem _ hmem⟩

private theorem named_behind {d : Place} {target : Text} {rest : List Text}
    (hw : Walks t last names p (.link d target rest)) (hn : ∀ name ∈ names, named name)
    (ht : ∀ name, t.Mentions name → named name) : ∀ name ∈ (Path.ofText target).names ++ rest, named name := by
  obtain ⟨⟨q, hq⟩, hrest⟩ := hw.of_link rfl
  intro name hmem
  rcases List.mem_append.1 hmem with hmem | hmem
  · exact ht name (.inl ⟨q, target, hq, hmem⟩)
  · exact hn name (hrest name hmem)

theorem follow_eq_error {n : Nat} (h : t.follow last n names p = .error e) (hn : ∀ name ∈ names, named name)
    (ht : ∀ name, t.Mentions name → named name) : IsMishap named e := by
  induction n generalizing names p with
  | zero =>
    rw [follow] at h
    split at h
    · next hw =>
      cases h
      exact walk_eq_error hw hn
    · cases h
    · cases h
      exact .inr (.inr (.inl rfl))
  | succ n ih =>
    rw [follow] at h
    split at h
    · next hw =>
      cases h
      exact walk_eq_error hw hn
    · cases h
    · next hw => exact ih h (named_behind (walk_eq_ok_iff.1 hw) hn ht)

theorem find_eq_error (hpath : ∀ name ∈ path.names, named name) (ht : ∀ name, t.Mentions name → named name)
    (h : t.find last path = .error e) : e = .badName ∧ path.hasZero = true ∨ IsMishap named e := by
  unfold find at h
  split at h
  · next hzero =>
    cases h
    exact .inl ⟨rfl, hzero⟩
  · exact .inr (follow_eq_error h hpath ht)

theorem blamesName_of_hasZero (hpath : ∀ name ∈ path.names, named name) (h : path.hasZero = true) :
    FileError.badName.BlamesName named := by
  obtain ⟨name, hname, hzero⟩ := List.any_eq_true.1 h
  exact ⟨name, hpath name hname, by simpa using hzero⟩

theorem hasZero_of_find (h : t.find last path = .error .badName) : path.hasZero = true := by
  have hcases : FileError.badName = .badName ∧ path.hasZero = true ∨ IsMishap (fun _ => True) .badName :=
    find_eq_error (fun _ _ => trivial) (fun _ _ => trivial) h
  rcases hcases with ⟨-, hzero⟩ | hmishap
  · exact hzero
  · exact absurd rfl hmishap.ne_badName

/-- Whether there is a file or a directory can be told, unless a name is to blame. -/
theorem leadsTo_eq_error (hpath : ∀ name ∈ path.names, named name) (ht : ∀ name, t.Mentions name → named name)
    {is : Entry → Bool} (h : t.leadsTo is path = .error e) : e.BlamesName named := by
  unfold leadsTo at h
  split at h
  · cases h
  · next hf =>
    split at h
    · cases h
    · next hsomewhere =>
      cases h
      rcases find_eq_error hpath ht hf with ⟨rfl, -⟩ | rfl | rfl | rfl | ⟨-, hname⟩
      · exact absurd rfl hsomewhere
      · exact absurd rfl hsomewhere
      · exact absurd rfl hsomewhere
      · exact absurd rfl hsomewhere
      · exact hname

theorem hasZero_of_read (h : t.read path = .error .badName) : path.hasZero = true := by
  unfold read at h
  split at h
  · cases h
  · cases h
  · cases h
  · next hf =>
    cases h
    exact hasZero_of_find hf

theorem hasZero_of_write {c : Content} (h : t.write path c = .error .badName) : path.hasZero = true := by
  unfold write at h
  split at h
  · cases h
  · cases h
  · cases h
  · next hf =>
    cases h
    exact hasZero_of_find hf

theorem hasZero_of_remove (h : t.remove path = .error .badName) : path.hasZero = true := by
  unfold remove at h
  split at h
  · cases h
  · cases h
  · next hf =>
    cases h
    exact hasZero_of_find hf

private theorem hasZero_of_makeDirectory (h : t.makeDirectory path = .error .badName) : path.hasZero = true := by
  unfold makeDirectory at h
  split at h
  · cases h
  · cases h
  · next hf =>
    cases h
    exact hasZero_of_find hf

private theorem hasZero_of_parent (h : path.parent.hasZero = true) : path.hasZero = true := by
  obtain ⟨name, hname, hzero⟩ := List.any_eq_true.1 h
  exact List.any_eq_true.2 ⟨name, List.dropLast_subset _ hname, hzero⟩

private theorem eq_badName_of_unlessDirectory (h : (t.unlessDirectory path e).1 = .error .badName) : e = .badName := by
  unfold unlessDirectory at h
  split at h
  · rfl
  · cases h
  · exact Except.error.inj h

private theorem hasZero_of_unlessDirectory (hm : t.makeDirectory path = .error e) {t' : FileTree}
    (h : (t'.unlessDirectory path e).1 = .error .badName) : path.hasZero = true := by
  obtain rfl := eq_badName_of_unlessDirectory h
  exact hasZero_of_makeDirectory hm

private theorem hasZero_of_makeAll {count : Nat} (h : (makeAll path count t).1 = .error .badName) :
    path.hasZero = true := by
  induction count generalizing path t with
  | zero =>
    unfold makeAll at h
    split at h
    · cases h
    · cases h
    · next heq => cases heq
    · next hm _ _ => exact hasZero_of_unlessDirectory hm h
  | succ count ih =>
    unfold makeAll at h
    split at h
    · cases h
    · next heq => cases heq
    · next heq =>
      cases heq
      split at h
      · split at h
        · cases h
        · cases h
        · next hm => exact hasZero_of_unlessDirectory hm h
      · exact hasZero_of_parent (ih h)
    · next hm _ _ => exact hasZero_of_unlessDirectory hm h

theorem hasZero_of_makeDirectories (h : (t.makeDirectories path).1 = .error .badName) : path.hasZero = true :=
  hasZero_of_makeAll h

/-! ## Names that are brought in -/

theorem Walks.getLast?_eq {s : Stop} (hw : Walks t last names p s) {old : Option Entry} (hs : s = .at q old)
    (hold : old ≠ some .directory) : ∃ name ∈ names, q.getLast? = some name := by
  induction hw with
  | done p =>
    cases hs
    exact absurd rfl hold
  | up _ ih =>
    obtain ⟨name, hmem, hlast⟩ := ih hs
    exact ⟨name, List.mem_cons_of_mem _ hmem, hlast⟩
  | into _ _ _ ih =>
    obtain ⟨name, hmem, hlast⟩ := ih hs
    exact ⟨name, List.mem_cons_of_mem _ hmem, hlast⟩
  | free hn hq | file hn hq | onLink hn hq hl =>
    cases hs
    exact ⟨_, List.mem_cons_self, List.getLast?_concat⟩
  | link hn hq hl => cases hs

theorem Follows.getLast?_eq {n : Nat} {r : Place × Option Entry} (hf : Follows t last n names p r)
    (hr : r.2 ≠ some .directory) (hn : ∀ name ∈ names, named name) (ht : ∀ name, t.Mentions name → named name) :
    ∃ name, named name ∧ r.1.getLast? = some name := by
  induction hf with
  | stop hw =>
    obtain ⟨name, hmem, hlast⟩ := hw.getLast?_eq rfl hr
    exact ⟨name, hn name hmem, hlast⟩
  | link hw _ ih => exact ih hr (named_behind hw hn ht)

/-- The bytes of `t'` that are no text stand in `t`, and its names are all known. -/
structure Descends (named : Text → Prop) (t t' : FileTree) : Prop where
  bytes_old : ∀ p bs, t'.get? p = some (.file (.bytes bs)) → t.get? p = some (.file (.bytes bs))
  mentioned : ∀ name, t'.Mentions name → named name

/-- With a name, the names of the path that it writes are known. -/
def IsClosed (named : Text → Prop) : Prop := ∀ final, named final → ∀ name ∈ (Path.ofText final).names, named name

namespace Descends

variable (hclosed : IsClosed named) (hpath : ∀ name ∈ path.names, named name)
include hclosed hpath

private theorem put (h : Descends named t t') {old : Option Entry} (hf : t'.find last path = .ok (q, old))
    (hold : old ≠ some .directory) (hq : q ≠ []) {new : Entry} (hnew : ∀ bs, new ≠ .file (.bytes bs))
    (hlink : ∀ target, new ≠ .link target) : Descends named t (t'.put q new) where
  bytes_old p bs hp := by
    rw [get?_put hq] at hp
    split at hp
    · exact absurd (Option.some.inj hp) (hnew bs)
    · exact h.bytes_old p bs hp
  mentioned name hname := by
    rcases hname with ⟨p, target, hp, hname⟩ | ⟨x, hx, final, hfinal, hname⟩
    · rw [get?_put hq] at hp
      split at hp
      · exact absurd (Option.some.inj hp) (hlink target)
      · exact h.mentioned name (.inl ⟨p, target, hp, hname⟩)
    · rcases mem_putEntry hx with rfl | hx
      · obtain ⟨final', hnamed, hlast⟩ := (find_eq_ok_iff.1 hf).2.getLast?_eq hold hpath h.mentioned
        obtain rfl := Option.some.inj (hlast.symm.trans hfinal)
        exact hclosed _ hnamed name hname
      · exact h.mentioned name (.inr ⟨x, hx, final, hfinal, hname⟩)

theorem write (h : Descends named t t') {u : Text} (hw : t'.write path (.text u) = .ok t'') :
    Descends named t t'' := by
  obtain ⟨q, hf, hq, rfl, -, -⟩ := write_put hw
  rcases hf with hf | ⟨old, hf⟩
  · exact h.put hclosed hpath hf (by simp) hq (by simp) (by simp)
  · exact h.put hclosed hpath hf (by simp) hq (by simp) (by simp)

omit hpath in
theorem makeDirectories (hpath : ∀ name ∈ path.names, named name) (h : Descends named t t') :
    Descends named t (t'.makeDirectories path).2 := by
  refine makeAll_of_steps (P := fun path => ∀ name ∈ path.names, named name)
    (R := fun t₁ t₂ => Descends named t t₁ → Descends named t t₂)
    (fun path hp name hmem => hp name (List.dropLast_subset _ hmem)) (fun _ => id) (fun _ _ _ h h' => h' ∘ h) ?_ hpath
    _ t' h
  intro t₁ t₂ path hpath hm h
  unfold makeDirectory at hm
  split at hm
  · next q hf =>
    obtain rfl := Except.ok.inj hm
    have hq : q ≠ [] := by
      rintro rfl
      exact Option.some_ne_none _ (get?_of_find_free hf)
    exact h.put hclosed hpath hf (by simp) hq (by simp) (by simp)
  · cases hm
  · cases hm

omit hclosed hpath in
theorem remove (h : Descends named t t') (hr : t'.remove path = .ok t'') : Descends named t t'' := by
  unfold FileTree.remove at hr
  split at hr
  · next q e hf =>
    obtain rfl := Except.ok.inj hr
    have hget {p : Place} {e : Entry} (hp : (t'.without fun r => r.take q.length = q).get? p = some e) :
        t'.get? p = some e := by
      rw [get?_without] at hp
      split at hp
      · cases hp
      · exact hp
    refine ⟨fun p bs hp => h.bytes_old p bs (hget hp), fun name hname => h.mentioned name ?_⟩
    rcases hname with ⟨p, target, hp, hname⟩ | ⟨x, hx, final, hfinal, hname⟩
    · exact .inl ⟨p, target, hget hp, hname⟩
    · exact .inr ⟨x, (List.mem_filter.1 hx).1, final, hfinal, hname⟩
  · cases hr
  · cases hr

end Descends

end FileTree

end ClientGen
