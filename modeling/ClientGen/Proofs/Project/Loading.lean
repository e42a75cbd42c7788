import ClientGen.Project.AliasFile
import ClientGen.Proofs.Files.Writes
import ClientGen.Proofs.Project.Run
/-!
# Loading a description again

What is loaded depends on the answers to requests and on the file of the description alone.
-/

namespace ClientGen

variable {α β : Type}

/-! ## Requests -/

/-- What holds for a task that ends at once, and for a request if it holds for what follows its answer, holds for a
download, however often it is redirected. -/
theorem fetchFrom_induction {P : Task (StateM Machine) Text → Prop} (hpure : ∀ t, P (pure t))
    (hthrow : ∀ e, P (throw e))
    (hrequest : ∀ (url : Text) (f : Except Text Reply → Task (StateM Machine) Text), (∀ r, P (f r)) →
      P (liftM (Host.request url : StateM Machine (Except Text Reply)) >>= f))
    (asked : Text) (redirects : Nat) (url : Url) : P (fetchFrom asked redirects url) := by
  induction redirects generalizing url with
  | zero =>
    unfold fetchFrom
    refine hrequest _ _ fun r => ?_
    dsimp only
    split
    · exact hthrow _
    split
    · exact hthrow _
    split
    · exact hpure _
    · exact hthrow _
  | succ redirects ih =>
    unfold fetchFrom
    refine hrequest _ _ fun r => ?_
    dsimp only
    split
    · exact hthrow _
    split
    · exact ih _
    split
    · exact hpure _
    · exact hthrow _

/-- A task that changes nothing and depends on the answers to requests alone. -/
def Task.OnlyAsks (x : Task (StateM Machine) α) : Prop :=
  ∀ m a m', x.Ends m a m' → m' = m ∧ ∀ n : Machine, n.replies = m.replies → x.Ends n a n

namespace Task.OnlyAsks

theorem pure (a : α) : OnlyAsks (pure a) := by
  intro m b m' h
  obtain ⟨rfl, rfl⟩ := ends_pure.1 h
  exact ⟨rfl, fun n _ => ends_pure.2 ⟨rfl, rfl⟩⟩

theorem throw (e : Failure) : OnlyAsks (throw e : Task (StateM Machine) α) :=
  fun _ _ _ h => absurd h ends_throw

theorem bind {x : Task (StateM Machine) α} {f : α → Task (StateM Machine) β} (hx : OnlyAsks x)
    (hf : ∀ a, OnlyAsks (f a)) : OnlyAsks (x >>= f) := by
  intro m b m' h
  obtain ⟨a, m₁, ha, hb⟩ := ends_bind.1 h
  obtain ⟨rfl, hagain⟩ := hx m a m₁ ha
  obtain ⟨rfl, hagain'⟩ := hf a _ b m' hb
  exact ⟨rfl, fun n hn => ends_bind.2 ⟨a, n, hagain n hn, hagain' n hn⟩⟩

theorem request (url : Text) :
    OnlyAsks (liftM (Host.request url : StateM Machine (Except Text Reply))) := by
  have hrun {m n : Machine} (hn : n.replies = m.replies) :
      n.run (Host.request url : StateM Machine (Except Text Reply)) =
        ((m.run (Host.request url : StateM Machine (Except Text Reply))).1, n) := by
    unfold Machine.run
    simp only [Host.request, hn]
    cases m.replies.get? url <;> rfl
  intro m r m' h
  have hm := ends_lift.1 h
  rw [hrun rfl, Prod.mk.injEq] at hm
  obtain ⟨hr, rfl⟩ := hm
  refine ⟨rfl, fun n hn => ends_lift.2 ?_⟩
  rw [hrun hn, hr]

end Task.OnlyAsks

theorem onlyAsks_fetchFrom (asked : Text) (redirects : Nat) (url : Url) :
    Task.OnlyAsks (fetchFrom asked redirects url) :=
  fetchFrom_induction .pure .throw (fun url _ hf => .bind (.request url) hf) asked redirects url

/-! ## Descriptions -/

open ClientGen.Task

variable {m m' : Machine} {path directory : Path}

theorem ends_readDescription {t : Text} :
    (readDescription path : Task (StateM Machine) Text).Ends m t m' ↔
      ∃ p old, m.files.find true path = .ok (p, some (.file (.text old))) ∧ t = unifyLineEnds old ∧ m = m' := by
  rw [readDescription, ends_bind]
  constructor
  · rintro ⟨b, m₁, hb, ht⟩
    obtain ⟨-, rfl⟩ := ends_isFile.1 hb
    cases b with
    | false => exact absurd ht ends_throw
    | true =>
      rw [if_pos rfl] at ht
      obtain ⟨old, hold, rfl, rfl⟩ := ends_readText.1 ht
      obtain ⟨p, hp⟩ := FileTree.read_eq_ok_iff.1 hold
      exact ⟨p, old, hp, rfl, rfl⟩
  · rintro ⟨p, old, hp, rfl, rfl⟩
    refine ⟨true, m, ends_isFile.2 ⟨FileTree.isFile_eq_true_iff.2 ⟨p, _, hp⟩, rfl⟩, ?_⟩
    rw [if_pos rfl]
    exact ends_readText.2 ⟨old, FileTree.read_eq_ok_iff.2 ⟨p, hp⟩, rfl, rfl⟩

theorem ends_loadDescription_of_local {location : Text} (hl : isRemote location = false) {document : Fields} :
    (loadDescription directory location : Task (StateM Machine) Fields).Ends m document m' ↔
      ∃ p t, m.files.find true (directory / Path.ofText location) = .ok (p, some (.file (.text t))) ∧
        parseDescription (directory / Path.ofText location).toText (unifyLineEnds t) = .ok document ∧ m = m' := by
  unfold loadDescription
  rw [hl, if_neg Bool.false_ne_true, ends_bind]
  constructor
  · rintro ⟨u, m₁, hu, hd⟩
    obtain ⟨p, t, hp, rfl, rfl⟩ := ends_readDescription.1 hu
    obtain ⟨hparse, rfl⟩ := ends_liftExcept.1 hd
    exact ⟨p, t, hp, hparse, rfl⟩
  · rintro ⟨p, t, hp, hparse, rfl⟩
    exact ⟨_, m, ends_readDescription.2 ⟨p, t, hp, rfl, rfl⟩, ends_liftExcept.2 ⟨hparse, rfl⟩⟩

/-- A description is loaded again from the same answers and the same file. -/
theorem ends_loadDescription_again {location : Text} {document : Fields}
    (h : (loadDescription directory location : Task (StateM Machine) Fields).Ends m document m') :
    m' = m ∧ ∀ n : Machine, n.replies = m.replies →
      (isRemote location = false → ∀ p c,
        m.files.find true (directory / Path.ofText location) = .ok (p, some (.file c)) →
          n.files.find true (directory / Path.ofText location) = .ok (p, some (.file c))) →
      (loadDescription directory location : Task (StateM Machine) Fields).Ends n document n := by
  cases hr : isRemote location with
  | true =>
    unfold loadDescription at h ⊢
    rw [if_pos hr, ends_bind] at h
    obtain ⟨t, m₁, ht, hd⟩ := h
    obtain ⟨rfl, hagain⟩ := onlyAsks_fetchFrom _ _ _ m t m₁ ht
    obtain ⟨hparse, rfl⟩ := ends_liftExcept.1 hd
    refine ⟨rfl, fun n hn _ => ?_⟩
    rw [if_pos hr, ends_bind]
    exact ⟨t, n, hagain n hn, ends_liftExcept.2 ⟨hparse, rfl⟩⟩
  | false =>
    obtain ⟨p, t, hp, hparse, rfl⟩ := (ends_loadDescription_of_local hr).1 h
    exact ⟨rfl, fun n _ hn => (ends_loadDescription_of_local hr).2 ⟨p, t, hn rfl p _ hp, hparse, rfl⟩⟩

end ClientGen
