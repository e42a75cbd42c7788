import ClientGen.Proofs.Files.Growth
/-!
# Sequences of writes

Of several files that are written one after the other, with directories made in between, each holds in the
end what was written to it, as long as no two of the paths lead to one place.
-/

namespace ClientGen.FileTree

variable {path : Path}

section Paths

variable {t : FileTree}

/-! ## What a path leads to -/

theorem isFile_eq_true_iff :
    t.isFile path = .ok true ↔ ∃ p c, t.find true path = .ok (p, some (.file c)) := by
  unfold isFile leadsTo
  constructor
  · intro h
    split at h
    · next p e hf =>
      cases e with
      | none => cases h
      | some e =>
        cases e with
        | file c => exact ⟨p, c, hf⟩
        | directory => cases h
        | link target => cases h
    · split at h
      · cases h
      · cases h
  · rintro ⟨p, c, hf⟩
    rw [hf]
    rfl

theorem read_eq_ok_iff {c : Content} : t.read path = .ok c ↔ ∃ p, t.find true path = .ok (p, some (.file c)) := by
  unfold read
  constructor
  · intro h
    split at h
    · next p c' hf => exact ⟨p, Except.ok.inj h ▸ hf⟩
    · cases h
    · cases h
    · cases h
  · rintro ⟨p, hf⟩
    rw [hf]

theorem isFile_congr {t' : FileTree} (h : t'.find true path = t.find true path) :
    t'.isFile path = t.isFile path := by
  unfold isFile leadsTo
  rw [h]

theorem read_congr {t' : FileTree} (h : t'.find true path = t.find true path) : t'.read path = t.read path := by
  unfold read
  rw [h]

/-- Whether a path can be written to: it leads to a file or to a free place. -/
def CanWrite (t : FileTree) (path : Path) : Prop :=
  ∃ p, t.find true path = .ok (p, none) ∨ ∃ c, t.find true path = .ok (p, some (.file c))

theorem CanWrite.write (h : t.CanWrite path) (c : Content) : ∃ t', t.write path c = .ok t' := by
  obtain ⟨p, hp⟩ := h
  exact ⟨t.put p (.file c), write_eq_ok_iff.2 ⟨p, hp, rfl⟩⟩

/-- No two of the paths lead to one place. -/
def Apart (t : FileTree) (paths : List Path) : Prop :=
  paths.Pairwise fun q r => ∀ p, t.LeadsAt q p → ¬t.LeadsAt r p

end Paths

/-! ## Writes -/

/-- The tree `t'` is made from `t` by writing texts to paths in order, with directories made before each. -/
inductive Writes : List (Path × Text) → FileTree → FileTree → Prop
  | done {t t' : FileTree} (h : Grows [] t t') : Writes [] t t'
  | write {t t₁ t₂ t' : FileTree} {path : Path} {u : Text} {ws : List (Path × Text)} (h : Grows [] t t₁)
      (hw : t₁.write path (.text u) = .ok t₂) (hs : Writes ws t₂ t') : Writes ((path, u) :: ws) t t'

namespace Writes

variable {t t' t'' : FileTree} {ws vs : List (Path × Text)}

theorem grows (h : Writes ws t t') : Grows (ws.map Prod.fst) t t' := by
  induction h with
  | done h => exact h
  | write h hw _ ih => exact h.trans ((write_grows hw).1.trans ih)

theorem after (h : Writes ws t' t'') (hg : Grows [] t t') : Writes ws t t'' := by
  cases h with
  | done h => exact .done (hg.trans h)
  | write h hw hs => exact .write (hg.trans h) hw hs

theorem append (h : Writes ws t t') (h' : Writes vs t' t'') : Writes (ws ++ vs) t t'' := by
  induction h with
  | done hg => exact h'.after hg
  | write h hw _ ih => exact .write h hw (ih h')

theorem find (h : Writes ws t t') (ha : t'.Apart (ws.map Prod.fst)) {w : Path × Text} (hw : w ∈ ws) :
    ∃ p, t'.find true w.1 = .ok (p, some (.file (.text w.2))) := by
  induction h with
  | done _ => cases hw
  | write h hwrite hs ih =>
    obtain ⟨hfirst, hrest⟩ := List.pairwise_cons.1 ha
    rcases List.mem_cons.1 hw with rfl | hw
    · obtain ⟨p, hp⟩ := (write_grows hwrite).2
      refine ⟨p, hs.grows.find_file hp fun q hq => ?_⟩
      exact hfirst q hq p (hs.grows.leadsAt ⟨_, hp⟩)
    · exact ih hrest hw

theorem find_file (h : Writes ws t t') (hm : path ∈ ws.map Prod.fst) :
    ∃ p c, t'.find true path = .ok (p, some (.file c)) := by
  induction h with
  | done _ => cases hm
  | write _ hwrite hs ih =>
    rcases List.mem_cons.1 hm with rfl | hm
    · obtain ⟨p, hp⟩ := (write_grows hwrite).2
      obtain ⟨e', hfind, he⟩ := find_kept hs.grows.kept hs.grows.here_eq hp
      cases he with
      | file _ c => exact ⟨p, c, hfind⟩
    · exact ih hm

theorem find_of_apart (h : Writes ws t t') {p : Place} {c : Content}
    (hf : t.find true path = .ok (p, some (.file c))) (ha : t'.Apart (path :: ws.map Prod.fst)) :
    t'.find true path = .ok (p, some (.file c)) := by
  refine h.grows.find_file hf fun q hq => ?_
  exact (List.pairwise_cons.1 ha).1 q hq p (h.grows.leadsAt ⟨_, hf⟩)

end Writes

end ClientGen.FileTree
