import ClientGen.Files.Access
import Mathlib.Data.List.Basic
/-!
# Growing file trees

Writing files and making directories takes nothing away: a path that leads to something goes on leading to
the same place, and a file keeps its content unless a path that is written leads to it.
-/

namespace ClientGen

/-- What may become of an entry that stays: at most the content of a file changes. -/
inductive Entry.Keeps : Entry → Entry → Prop
  | file (c c' : Content) : Keeps (.file c) (.file c')
  | directory : Keeps .directory .directory
  | link (target : Text) : Keeps (.link target) (.link target)

namespace Entry.Keeps

theorem refl (e : Entry) : e.Keeps e := by
  cases e with
  | file c => exact .file c c
  | directory => exact .directory
  | link target => exact .link target

theorem trans {d e f : Entry} (h : d.Keeps e) (h' : e.Keeps f) : d.Keeps f := by
  cases h with
  | file c c' =>
    cases h' with
    | file _ c'' => exact .file c c''
  | directory => exact h'
  | link target => exact h'

end Entry.Keeps

namespace FileTree

variable {t t' t'' : FileTree}

/-- Everything in `t` stays in `t'`. -/
def Kept (t t' : FileTree) : Prop :=
  ∀ p e, t.get? p = some e → ∃ e', t'.get? p = some e' ∧ e.Keeps e'

theorem Kept.refl (t : FileTree) : t.Kept t := fun _ e h => ⟨e, h, .refl e⟩

theorem Kept.trans (h : t.Kept t') (h' : t'.Kept t'') : t.Kept t'' := by
  intro p e hp
  obtain ⟨e', hp', he⟩ := h p e hp
  obtain ⟨e'', hp'', he'⟩ := h' p e' hp'
  exact ⟨e'', hp'', he.trans he'⟩

/-! ## Walks -/

/-- A name that is not the two points and not too long. -/
def IsStep (name : Text) : Prop := name ≠ ['.', '.'] ∧ ¬maxNameBytes < (String.ofList name).utf8ByteSize

/-- The walk along names from a place ends where it says. -/
inductive Walks (t : FileTree) (last : Bool) : List Text → Place → Stop → Prop
  | done (p : Place) : Walks t last [] p (.at p (some .directory))
  | up {names : List Text} {p : Place} {s : Stop} (h : Walks t last names p.dropLast s) :
      Walks t last (['.', '.'] :: names) p s
  | free {name : Text} {p : Place} (hn : IsStep name) (hq : t.get? (p ++ [name]) = none) :
      Walks t last [name] p (.at (p ++ [name]) none)
  | file {name : Text} {p : Place} {c : Content} (hn : IsStep name)
      (hq : t.get? (p ++ [name]) = some (.file c)) :
      Walks t last [name] p (.at (p ++ [name]) (some (.file c)))
  | into {name : Text} {names : List Text} {p : Place} {s : Stop} (hn : IsStep name)
      (hq : t.get? (p ++ [name]) = some .directory) (h : Walks t last names (p ++ [name]) s) :
      Walks t last (name :: names) p s
  | onLink {name target : Text} {p : Place} (hn : IsStep name)
      (hq : t.get? (p ++ [name]) = some (.link target)) (hl : last = false) :
      Walks t last [name] p (.at (p ++ [name]) (some (.link target)))
  | link {name target : Text} {names : List Text} {p : Place} (hn : IsStep name)
      (hq : t.get? (p ++ [name]) = some (.link target)) (hl : names ≠ [] ∨ last = true) :
      Walks t last (name :: names) p (.link p target names)

private theorem walks_of_walk {last : Bool} {names : List Text} {p : Place} {s : Stop}
    (h : t.walk last names p = .ok s) : Walks t last names p s := by
  induction names generalizing p with
  | nil =>
    cases h
    exact .done p
  | cons name names ih =>
    rw [walk] at h
    split at h
    · next hn =>
      subst hn
      exact .up (ih h)
    next hn =>
    split at h
    · cases h
    next hlong =>
    dsimp only at h
    split at h
    · next hq =>
      split at h
      · next he =>
        cases h
        subst he
        exact .free ⟨hn, hlong⟩ hq
      · cases h
    · next hq =>
      split at h
      · next he =>
        cases h
        subst he
        exact .file ⟨hn, hlong⟩ hq
      · cases h
    · next hq => exact .into ⟨hn, hlong⟩ hq (ih h)
    · next hq =>
      split at h
      · next he =>
        simp only [Bool.and_eq_true, decide_eq_true_eq, Bool.not_eq_true'] at he
        cases h
        obtain ⟨rfl, rfl⟩ := he
        exact .onLink ⟨hn, hlong⟩ hq rfl
      · next he =>
        simp only [Bool.and_eq_true, decide_eq_true_eq, Bool.not_eq_true', not_and,
          Bool.not_eq_false] at he
        cases h
        exact .link ⟨hn, hlong⟩ hq (or_iff_not_imp_left.2 fun hne => he (not_not.1 hne))

theorem Walks.walk_eq_ok {last : Bool} {names : List Text} {p : Place} {s : Stop} (h : Walks t last names p s) :
    t.walk last names p = .ok s := by
  induction h with
  | done p => rfl
  | up _ ih => rw [walk, if_pos rfl, ih]
  | free hn hq => simp [walk, hn.1, hn.2, hq]
  | file hn hq => simp [walk, hn.1, hn.2, hq]
  | into hn hq _ ih => simp [walk, hn.1, hn.2, hq, ih]
  | onLink hn hq hl => simp [walk, hn.1, hn.2, hq, hl]
  | link hn hq hl =>
    rcases hl with hl | hl
    · simp [walk, hn.1, hn.2, hq, hl]
    · simp [walk, hn.1, hn.2, hq, hl]

theorem walk_eq_ok_iff {last : Bool} {names : List Text} {p : Place} {s : Stop} :
    t.walk last names p = .ok s ↔ Walks t last names p s :=
  ⟨walks_of_walk, Walks.walk_eq_ok⟩

/-! ## Places that stay -/

section Walk

variable {last : Bool} {names : List Text} {p q : Place} {s : Stop}

/-- A walk that stops at a link or ends at something does so in every tree in which everything stays. -/
theorem Walks.kept (h : t.Kept t') (hw : Walks t last names p s) (hs : ∀ q, s ≠ .at q none) :
    ∃ s', Walks t' last names p s' ∧
      (s' = s ∨ ∃ q c c', s = .at q (some (.file c)) ∧ s' = .at q (some (.file c'))) := by
  induction hw with
  | done p => exact ⟨_, .done p, .inl rfl⟩
  | up _ ih =>
    obtain ⟨s', hw', hs'⟩ := ih hs
    exact ⟨s', .up hw', hs'⟩
  | free hn hq => exact absurd rfl (hs _)
  | file hn hq =>
    obtain ⟨e', hq', he⟩ := h _ _ hq
    cases he with
    | file c c' => exact ⟨_, .file hn hq', .inr ⟨_, _, _, rfl, rfl⟩⟩
  | into hn hq _ ih =>
    obtain ⟨e', hq', he⟩ := h _ _ hq
    cases he
    obtain ⟨s', hw', hs'⟩ := ih hs
    exact ⟨s', .into hn hq' hw', hs'⟩
  | onLink hn hq hl =>
    obtain ⟨e', hq', he⟩ := h _ _ hq
    cases he
    exact ⟨_, .onLink hn hq' hl, .inl rfl⟩
  | link hn hq hl =>
    obtain ⟨e', hq', he⟩ := h _ _ hq
    cases he
    exact ⟨_, .link hn hq' hl, .inl rfl⟩

theorem Walks.of_free (h : t.Kept t') (hw : Walks t last names p (.at q none))
    (hq : ∀ target, t'.get? q ≠ some (.link target)) : Walks t' last names p (.at q (t'.get? q)) := by
  generalize hs : Stop.at q none = s at hw
  induction hw with
  | done p => cases hs
  | up _ ih => exact .up (ih hs)
  | @free name p hn _ =>
    cases hs
    cases he : t'.get? (p ++ [name]) with
    | none => exact .free hn he
    | some e =>
      cases e with
      | file c => exact .file hn he
      | directory => exact .into hn he (.done _)
      | link target => exact absurd he (hq target)
  | file hn _ => cases hs
  | into hn hd _ ih =>
    obtain ⟨e', hd', he⟩ := h _ _ hd
    cases he
    exact .into hn hd' (ih hs)
  | onLink hn _ _ => cases hs
  | link hn _ _ => cases hs

theorem Walks.get?_eq (hw : Walks t last names p s) :
    (∀ c, s = .at q (some (.file c)) → t.get? q = some (.file c)) ∧ (s = .at q none → t.get? q = none) := by
  induction hw with
  | done p => simp
  | up _ ih => exact ih
  | free hn hq =>
    refine ⟨by simp, fun hs => ?_⟩
    cases hs
    exact hq
  | file hn hq =>
    refine ⟨fun c hs => ?_, by simp⟩
    cases hs
    exact hq
  | into hn hq _ ih => exact ih
  | onLink hn hq hl => simp
  | link hn hq hl => simp

end Walk

/-! ## Paths -/

/-- From a place, names lead through at most `n` links to where they say. -/
inductive Follows (t : FileTree) (last : Bool) : Nat → List Text → Place → Place × Option Entry → Prop
  | stop {n : Nat} {names : List Text} {p q : Place} {e : Option Entry}
      (h : Walks t last names p (.at q e)) : Follows t last n names p (q, e)
  | link {n : Nat} {names rest : List Text} {p d : Place} {target : Text} {r : Place × Option Entry}
      (h : Walks t last names p (.link d target rest))
      (h' : Follows t last n ((Path.ofText target).names ++ rest)
        (if (Path.ofText target).isAbsolute then [] else d) r) :
      Follows t last (n + 1) names p r

theorem follow_eq_ok_iff {last : Bool} {n : Nat} {names : List Text} {p : Place}
    {r : Place × Option Entry} : t.follow last n names p = .ok r ↔ Follows t last n names p r := by
  constructor
  · intro h
    induction n generalizing names p with
    | zero =>
      rw [follow] at h
      split at h
      · cases h
      · next hw =>
        cases h
        exact .stop (walk_eq_ok_iff.1 hw)
      · cases h
    | succ n ih =>
      rw [follow] at h
      split at h
      · cases h
      · next hw =>
        cases h
        exact .stop (walk_eq_ok_iff.1 hw)
      · next hw => exact .link (walk_eq_ok_iff.1 hw) (ih h)
  · intro h
    induction h with
    | stop h =>
      unfold follow
      rw [walk_eq_ok_iff.2 h]
    | link h _ ih =>
      rw [follow, walk_eq_ok_iff.2 h]
      exact ih

section Follow

variable {last : Bool} {n : Nat} {names : List Text} {p q : Place}

theorem Follows.kept (h : t.Kept t') {r : Place × Option Entry} (hf : Follows t last n names p r)
    {e : Entry} (hr : r = (q, some e)) : ∃ e', Follows t' last n names p (q, some e') ∧ e.Keeps e' := by
  induction hf with
  | stop hw =>
    cases hr
    obtain ⟨s', hw', rfl | ⟨q', c, c', heq, rfl⟩⟩ := hw.kept h (by simp)
    · exact ⟨e, .stop hw', .refl e⟩
    · cases heq
      exact ⟨_, .stop hw', .file c c'⟩
  | link hw _ ih =>
    obtain ⟨e', hf', he⟩ := ih hr
    obtain ⟨s', hw', rfl | ⟨q', c, c', heq, -⟩⟩ := hw.kept h (by simp)
    · exact ⟨e', .link hw' hf', he⟩
    · cases heq

theorem Follows.of_free (h : t.Kept t') {r : Place × Option Entry} (hf : Follows t last n names p r)
    (hr : r = (q, none)) (hq : ∀ target, t'.get? q ≠ some (.link target)) :
    Follows t' last n names p (q, t'.get? q) := by
  induction hf with
  | stop hw =>
    cases hr
    exact .stop (hw.of_free h hq)
  | link hw _ ih =>
    obtain ⟨s', hw', rfl | ⟨q', c, c', heq, -⟩⟩ := hw.kept h (by simp)
    · exact .link hw' (ih hr)
    · cases heq

theorem Follows.get?_eq {r : Place × Option Entry} (hf : Follows t last n names p r) :
    (∀ c, r = (q, some (.file c)) → t.get? q = some (.file c)) ∧ (r = (q, none) → t.get? q = none) := by
  induction hf with
  | stop hw =>
    obtain ⟨hfile, hfree⟩ := hw.get?_eq (q := q)
    constructor
    · intro c hr
      cases hr
      exact hfile c rfl
    · intro hr
      cases hr
      exact hfree rfl
  | link _ _ ih => exact ih

end Follow

theorem find_eq_ok_iff {last : Bool} {path : Path} {r : Place × Option Entry} :
    t.find last path = .ok r ↔ path.hasZero = false ∧
      Follows t last maxLinks path.names (if path.isAbsolute then [] else t.here) r := by
  unfold find
  split
  · next hz => simp [hz]
  · next hz => simp [hz, follow_eq_ok_iff]

theorem find_kept (h : t.Kept t') (hh : t'.here = t.here) {last : Bool} {path : Path} {p : Place}
    {e : Entry} (hf : t.find last path = .ok (p, some e)) :
    ∃ e', t'.find last path = .ok (p, some e') ∧ e.Keeps e' := by
  obtain ⟨hz, hf⟩ := find_eq_ok_iff.1 hf
  obtain ⟨e', hf', he⟩ := hf.kept h rfl
  exact ⟨e', find_eq_ok_iff.2 ⟨hz, hh ▸ hf'⟩, he⟩

/-- A path that leads to a free place leads to what comes to be there, if that is no link. -/
theorem find_of_free (h : t.Kept t') (hh : t'.here = t.here) {last : Bool} {path : Path} {p : Place}
    (hf : t.find last path = .ok (p, none)) (hp : ∀ target, t'.get? p ≠ some (.link target)) :
    t'.find last path = .ok (p, t'.get? p) := by
  obtain ⟨hz, hf⟩ := find_eq_ok_iff.1 hf
  exact find_eq_ok_iff.2 ⟨hz, hh ▸ hf.of_free h rfl hp⟩

theorem get?_of_find_file {last : Bool} {path : Path} {p : Place} {c : Content}
    (hf : t.find last path = .ok (p, some (.file c))) : t.get? p = some (.file c) :=
  (find_eq_ok_iff.1 hf).2.get?_eq.1 c rfl

theorem get?_of_find_free {last : Bool} {path : Path} {p : Place} (hf : t.find last path = .ok (p, none)) :
    t.get? p = none :=
  (find_eq_ok_iff.1 hf).2.get?_eq.2 rfl

/-! ## Growth -/

/-- A path leads to a place at which something stands. -/
def LeadsAt (t : FileTree) (path : Path) (p : Place) : Prop := ∃ e, t.find true path = .ok (p, some e)

/-- Everything stays, no link is new, and only files to which one of the paths leads have another content. -/
structure Grows (paths : List Path) (t t' : FileTree) : Prop where
  here_eq : t'.here = t.here
  kept : t.Kept t'
  links_old : ∀ p target, t'.get? p = some (.link target) → t.get? p = some (.link target)
  same : ∀ p c, t.get? p = some (.file c) →
    t'.get? p = some (.file c) ∨ ∃ path ∈ paths, t'.LeadsAt path p

namespace Grows

variable {ps qs : List Path}

theorem refl (t : FileTree) : Grows [] t t where
  here_eq := rfl
  kept := .refl t
  links_old _ _ h := h
  same _ _ h := .inl h

theorem leadsAt (h : Grows ps t t') {path : Path} {p : Place} (hl : t.LeadsAt path p) : t'.LeadsAt path p := by
  obtain ⟨e, hf⟩ := hl
  obtain ⟨e', hf', -⟩ := find_kept h.kept h.here_eq hf
  exact ⟨e', hf'⟩

theorem trans (h : Grows ps t t') (h' : Grows qs t' t'') : Grows (ps ++ qs) t t'' where
  here_eq := h'.here_eq.trans h.here_eq
  kept := h.kept.trans h'.kept
  links_old p target hp := h.links_old p target (h'.links_old p target hp)
  same p c hp := by
    rcases h.same p c hp with hp' | ⟨path, hm, hl⟩
    · rcases h'.same p c hp' with hp'' | ⟨path, hm, hl⟩
      · exact .inl hp''
      · exact .inr ⟨path, List.mem_append_right _ hm, hl⟩
    · exact .inr ⟨path, List.mem_append_left _ hm, h'.leadsAt hl⟩

/-- A file keeps its content if no path that is written leads to it. -/
theorem find_file (h : Grows ps t t') {path : Path} {p : Place} {c : Content}
    (hf : t.find true path = .ok (p, some (.file c))) (hp : ∀ q ∈ ps, ¬t'.LeadsAt q p) :
    t'.find true path = .ok (p, some (.file c)) := by
  obtain ⟨e', hf', he⟩ := find_kept h.kept h.here_eq hf
  cases he with
  | file _ c' =>
    have hget := get?_of_find_file hf'
    rcases h.same p c (get?_of_find_file hf) with hsame | ⟨q, hm, hl⟩
    · rw [hsame] at hget
      rw [hf', ← Option.some.inj hget]
    · exact absurd hl (hp q hm)

end Grows

/-! ## Writing -/

theorem write_eq_ok_iff {path : Path} {c : Content} :
    t.write path c = .ok t' ↔
      ∃ p, (t.find true path = .ok (p, none) ∨ ∃ old, t.find true path = .ok (p, some (.file old))) ∧
        t' = t.put p (.file c) := by
  unfold write
  constructor
  · intro h
    split at h
    · next p old hf => exact ⟨p, .inr ⟨old, hf⟩, (Except.ok.inj h).symm⟩
    · next p hf => exact ⟨p, .inl hf, (Except.ok.inj h).symm⟩
    · cases h
    · cases h
  · rintro ⟨p, hf | ⟨old, hf⟩, rfl⟩
    · rw [hf]
    · rw [hf]

private theorem put_kept {p : Place} {e : Entry} (hp : p ≠ [])
    (h : ∀ old, t.get? p = some old → old.Keeps e) : t.Kept (t.put p e) := by
  intro q d hq
  by_cases hqp : q = p
  · subst hqp
    exact ⟨e, by rw [get?_put hp, if_pos rfl], h d hq⟩
  · exact ⟨d, by rw [get?_put hp, if_neg hqp, hq], .refl d⟩

private theorem link_of_put {p q : Place} {e : Entry} {target : Text} (hp : p ≠ []) (he : e ≠ .link target)
    (h : (t.put p e).get? q = some (.link target)) : t.get? q = some (.link target) := by
  rw [get?_put hp] at h
  split at h
  · exact absurd (Option.some.inj h) he
  · exact h

private theorem ne_root_of_get? {p : Place} (h : t.get? p ≠ some .directory) : p ≠ [] := by
  rintro rfl
  exact h rfl

/-- A write puts the file at the place to which the path leads, before and behind it. -/
theorem write_put {path : Path} {c : Content} (h : t.write path c = .ok t') :
    ∃ p, (t.find true path = .ok (p, none) ∨ ∃ old, t.find true path = .ok (p, some (.file old))) ∧
      p ≠ [] ∧ t' = t.put p (.file c) ∧ t'.find true path = .ok (p, some (.file c)) ∧ t.Kept t' := by
  obtain ⟨p, hf, rfl⟩ := write_eq_ok_iff.1 h
  have hold : ∀ old, t.get? p = some old → old.Keeps (.file c) := by
    intro old hget
    rcases hf with hf | ⟨old', hf⟩
    · rw [get?_of_find_free hf] at hget
      cases hget
    · rw [get?_of_find_file hf] at hget
      cases hget
      exact .file old' c
  have hp : p ≠ [] := by
    apply ne_root_of_get?
    intro hget
    cases hold _ hget
  have hkept : t.Kept (t.put p (.file c)) := put_kept hp hold
  have hget : (t.put p (.file c)).get? p = some (.file c) := by rw [get?_put hp, if_pos rfl]
  refine ⟨p, hf, hp, rfl, ?_, hkept⟩
  rcases hf with hf | ⟨old, hf⟩
  · rw [find_of_free hkept rfl hf (by rw [hget]; nofun), hget]
  · obtain ⟨e', hf', he⟩ := find_kept hkept rfl hf
    cases he with
    | file _ c' =>
      have hget' := get?_of_find_file hf'
      rw [hget] at hget'
      rw [hf', Option.some.inj hget']

theorem write_grows {path : Path} {c : Content} (h : t.write path c = .ok t') :
    Grows [path] t t' ∧ ∃ p, t'.find true path = .ok (p, some (.file c)) := by
  obtain ⟨p, -, hp, rfl, hfind, hkept⟩ := write_put h
  refine ⟨⟨rfl, hkept, fun q target => link_of_put hp (by simp), ?_⟩, p, hfind⟩
  intro q d hq
  by_cases hqp : q = p
  · subst hqp
    exact .inr ⟨path, List.mem_cons_self, _, hfind⟩
  · exact .inl (by rw [get?_put hp, if_neg hqp, hq])

/-! ## Making directories -/

theorem makeDirectory_grows {path : Path} (h : t.makeDirectory path = .ok t') : Grows [] t t' := by
  unfold makeDirectory at h
  split at h
  · next p hf =>
    obtain rfl := Except.ok.inj h
    have hfree := get?_of_find_free hf
    have hp : p ≠ [] := by
      apply ne_root_of_get?
      rw [hfree]
      simp
    refine ⟨rfl, put_kept hp fun old hold => ?_, fun q target => link_of_put hp (by simp), fun q c hq => .inl ?_⟩
    · rw [hfree] at hold
      cases hold
    · have hqp : q ≠ p := by
        rintro rfl
        rw [hfree] at hq
        cases hq
      rw [get?_put hp, if_neg hqp, hq]
  · cases h
  · cases h

theorem unlessDirectory_snd (t : FileTree) (path : Path) (e : FileError) :
    (t.unlessDirectory path e).2 = t := by
  unfold unlessDirectory
  split <;> rfl

/-- What is reached from a tree by making one directory after the other is reached by making a directory and
those on the way. -/
theorem makeAll_of_steps {P : Path → Prop} {R : FileTree → FileTree → Prop} (hparent : ∀ path, P path → P path.parent)
    (hrefl : ∀ t, R t t) (htrans : ∀ t u v, R t u → R u v → R t v)
    (hstep : ∀ t t' path, P path → t.makeDirectory path = .ok t' → R t t') {path : Path} (hpath : P path) (count : Nat)
    (t : FileTree) : R t (makeAll path count t).2 := by
  induction count generalizing path t with
  | zero =>
    unfold makeAll
    split
    · next hm => exact hstep _ _ _ hpath hm
    · exact hrefl t
    · next heq => cases heq
    · rw [unlessDirectory_snd]
      exact hrefl t
  | succ count ih =>
    unfold makeAll
    split
    · next hm => exact hstep _ _ _ hpath hm
    · next heq => cases heq
    · next heq =>
      cases heq
      have habove := ih (hparent path hpath) t
      split
      · next t₁ hall =>
        rw [hall] at habove
        split
        · next hm => exact htrans _ _ _ habove (hstep _ _ _ hpath hm)
        · exact habove
        · rw [unlessDirectory_snd]
          exact habove
      · exact habove
    · rw [unlessDirectory_snd]
      exact hrefl t

theorem makeDirectories_grows (t : FileTree) (path : Path) : Grows [] t (t.makeDirectories path).2 :=
  makeAll_of_steps (P := fun _ => True) (R := Grows []) (fun _ _ => trivial) .refl (fun _ _ _ h h' => h.trans h')
    (fun _ _ _ _ => makeDirectory_grows) trivial _ t

end FileTree

end ClientGen
