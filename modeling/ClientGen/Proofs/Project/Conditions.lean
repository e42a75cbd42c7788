import ClientGen.Proofs.Project.Extent
/-!
# Conditions of tasks

What holds of a machine when a task ends, and when it fails, follows from what holds before. The conditions of a task
are put together from those of its parts.
-/

namespace ClientGen

variable {α β : Type} {m m' : Machine}

namespace Task

/-- On the machine `m` the task fails and leaves the machine `m'`. -/
def Fails (x : Task (StateM Machine) α) (m : Machine) (e : Failure) (m' : Machine) : Prop :=
  m.run x.run = (.error e, m')

/-- On every machine that satisfies `I`, the task ends as `J` says or fails as `F` says. -/
def Meets (I : Machine → Prop) (J : α → Machine → Prop) (F : Failure → Machine → Prop)
    (x : Task (StateM Machine) α) : Prop :=
  ∀ m, I m → (∀ a m', x.Ends m a m' → J a m') ∧ ∀ e m', x.Fails m e m' → F e m'

theorem fails_pure {a : α} {e : Failure} : ¬(pure a : Task (StateM Machine) α).Fails m e m' := by
  intro h
  change ((Except.ok a, m) : Except Failure α × Machine) = (.error e, m') at h
  simp at h

theorem fails_throw {e e' : Failure} :
    (throw e : Task (StateM Machine) α).Fails m e' m' ↔ e = e' ∧ m = m' := by
  change ((Except.error e, m) : Except Failure α × Machine) = (.error e', m') ↔ _
  simp

theorem fails_bind {x : Task (StateM Machine) α} {f : α → Task (StateM Machine) β} {e : Failure} :
    (x >>= f).Fails m e m' ↔ x.Fails m e m' ∨ ∃ a m₁, x.Ends m a m₁ ∧ (f a).Fails m₁ e m' := by
  unfold Fails Ends
  rw [run_bind]
  cases hx : m.run x.run with
  | mk r m₁ =>
    cases r with
    | error e => simp
    | ok a => simp

theorem fails_attempt {failure : FileError → Failure} {action : StateM Machine (Except FileError α)} {e : Failure} :
    (attempt failure action).Fails m e m' ↔ ∃ e', m.run action = (.error e', m') ∧ failure e' = e := by
  unfold Fails
  rw [run_attempt]
  cases ha : m.run action with
  | mk r m₁ =>
    cases r with
    | error e' => simp [and_comm]
    | ok a => simp

theorem fails_lift {action : StateM Machine α} {e : Failure} :
    ¬(liftM action : Task (StateM Machine) α).Fails m e m' := by
  intro h
  change (Except.ok (m.run action).1, (m.run action).2) = (Except.error e, m') at h
  simp at h

theorem fails_liftExcept {x : Except Failure α} {e : Failure} :
    (liftM x : Task (StateM Machine) α).Fails m e m' ↔ x = .error e ∧ m = m' := by
  change (x, m) = (Except.error e, m') ↔ _
  rw [Prod.mk.injEq]

theorem KeepsFiles.fails {x : Task (StateM Machine) α} {e : Failure} (hx : KeepsFiles x) (h : x.Fails m e m') :
    m'.files = m.files := by
  have hfiles := hx m
  rw [h] at hfiles
  exact hfiles

namespace Meets

variable {I : Machine → Prop} {J : α → Machine → Prop} {K : β → Machine → Prop} {F : Failure → Machine → Prop}

protected theorem pure {a : α} (h : ∀ m, I m → J a m) : Meets I J F (pure a) := by
  intro m hm
  refine ⟨fun b m' hb => ?_, fun e m' he => absurd he fails_pure⟩
  obtain ⟨rfl, rfl⟩ := ends_pure.1 hb
  exact h m hm

protected theorem throw {e : Failure} (h : ∀ m, I m → F e m) : Meets I J F (throw e) := by
  intro m hm
  refine ⟨fun a m' ha => absurd ha ends_throw, fun e' m' he => ?_⟩
  obtain ⟨rfl, rfl⟩ := fails_throw.1 he
  exact h m hm

protected theorem bind {x : Task (StateM Machine) α} {f : α → Task (StateM Machine) β} (hx : Meets I J F x)
    (hf : ∀ a, Meets (J a) K F (f a)) : Meets I K F (x >>= f) := by
  intro m hm
  constructor
  · intro b m' h
    obtain ⟨a, m₁, ha, hb⟩ := ends_bind.1 h
    exact (hf a m₁ ((hx m hm).1 a m₁ ha)).1 b m' hb
  · intro e m' h
    rcases fails_bind.1 h with h | ⟨a, m₁, ha, hb⟩
    · exact (hx m hm).2 e m' h
    · exact (hf a m₁ ((hx m hm).1 a m₁ ha)).2 e m' hb

protected theorem attempt {failure : FileError → Failure} {action : StateM Machine (Except FileError α)}
    (hends : ∀ m a m', I m → m.run action = (.ok a, m') → J a m')
    (hfails : ∀ m e m', I m → m.run action = (.error e, m') → F (failure e) m') :
    Meets I J F (attempt failure action) := by
  intro m hm
  refine ⟨fun a m' ha => hends m a m' hm (ends_attempt.1 ha), fun e m' he => ?_⟩
  obtain ⟨e', hrun, rfl⟩ := fails_attempt.1 he
  exact hfails m e' m' hm hrun

/-- A change of the files leaves them changed, or as they are if it fails. -/
protected theorem change {failure : FileError → Failure} {f : FileTree → Except FileError FileTree}
    {J : Machine → Prop} (hends : ∀ m files, I m → f m.files = .ok files → J { m with files })
    (hfails : ∀ m e, I m → f m.files = .error e → F (failure e) m) :
    Meets I (fun _ => J) F (attempt failure (Machine.change f)) := by
  have hrun (m : Machine) : m.run (Machine.change f) = Machine.change f m := rfl
  apply Meets.attempt
  · intro m u m' hm h
    rw [hrun, Machine.change] at h
    split at h
    · next hf =>
      obtain ⟨-, rfl⟩ := Prod.mk.inj h
      exact hends m _ hm hf
    · cases h
  · intro m e m' hm h
    rw [hrun, Machine.change] at h
    split at h
    · cases h
    · next hf =>
      obtain ⟨he, rfl⟩ := Prod.mk.inj h
      obtain rfl := Except.error.inj he
      exact hfails m _ hm hf

protected theorem lift {action : StateM Machine α} (h : ∀ m a m', I m → m.run action = (a, m') → J a m') :
    Meets I J F (liftM action : Task (StateM Machine) α) :=
  fun m hm => ⟨fun a m' ha => h m a m' hm (ends_lift.1 ha), fun _ _ he => absurd he fails_lift⟩

protected theorem liftExcept {x : Except Failure α} (hends : ∀ a m, x = .ok a → I m → J a m)
    (hfails : ∀ e m, x = .error e → I m → F e m) : Meets I J F (liftM x : Task (StateM Machine) α) := by
  intro m hm
  constructor
  · intro a m' ha
    obtain ⟨hx, rfl⟩ := ends_liftExcept.1 ha
    exact hends a m hx hm
  · intro e m' he
    obtain ⟨hx, rfl⟩ := fails_liftExcept.1 he
    exact hfails e m hx hm

theorem mono {J' : α → Machine → Prop} {F' : Failure → Machine → Prop} {x : Task (StateM Machine) α}
    (hx : Meets I J F x) (hJ : ∀ a m, J a m → J' a m) (hF : ∀ e m, F e m → F' e m) : Meets I J' F' x :=
  fun m hm => ⟨fun a m' h => hJ a m' ((hx m hm).1 a m' h), fun e m' h => hF e m' ((hx m hm).2 e m' h)⟩

protected theorem mapM {f : α → Task (StateM Machine) β} {as : List α}
    (h : ∀ a ∈ as, Meets I (fun _ => I) F (f a)) : Meets I (fun _ => I) F (as.mapM f) := by
  induction as with
  | nil => exact .pure fun _ => id
  | cons a as ih =>
    rw [List.mapM_cons]
    refine .bind (h a List.mem_cons_self) fun b => .bind (ih fun a' ha => h a' (List.mem_cons_of_mem _ ha)) fun bs => ?_
    exact .pure fun _ => id

protected theorem forM {f : α → Task (StateM Machine) PUnit} {as : List α}
    (h : ∀ a ∈ as, Meets I (fun _ => I) F (f a)) : Meets I (fun _ => I) F (as.forM f) := by
  induction as with
  | nil => exact .pure fun _ => id
  | cons a as ih =>
    exact .bind (h a List.mem_cons_self) fun _ => ih fun a' ha => h a' (List.mem_cons_of_mem _ ha)

end Meets

end Task

open ClientGen.Task

theorem fails_writeText {failure e : Failure} {path : Path} {t : Text}
    (h : (writeText failure path t : Task (StateM Machine) Unit).Fails m e m') : m' = m := by
  have hmeets : Meets (· = m) (fun _ _ => True) (fun _ n => n = m) (writeText failure path t) :=
    .change (fun _ _ _ _ => trivial) fun _ _ hm _ => hm
  exact (hmeets m rfl).2 e m' h

end ClientGen
