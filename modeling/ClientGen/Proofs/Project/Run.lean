import ClientGen.Project.Update
/-!
# Runs of tasks

A task ends on a machine with a value and leaves another machine. The end of a task is told by the ends of
its parts, so that runs can be taken apart step by step.
-/

namespace ClientGen

variable {α β : Type} {m m' : Machine}

/-- What an action gives on a machine, and what becomes of the machine. -/
def Machine.run (m : Machine) (action : StateM Machine α) : α × Machine := action m

theorem Machine.run_bind (m : Machine) (action : StateM Machine α) (f : α → StateM Machine β) :
    m.run (action >>= f) = (m.run action).2.run (f (m.run action).1) := rfl

namespace Task

/-- On the machine `m` the task succeeds with the value `a` and leaves the machine `m'`. -/
def Ends (x : Task (StateM Machine) α) (m : Machine) (a : α) (m' : Machine) : Prop :=
  m.run x.run = (.ok a, m')

theorem exists_ends {x : Task (StateM Machine) α} (h : (m.run x.run).1.toOption.isSome = true) :
    ∃ a, x.Ends m a (m.run x.run).2 := by
  obtain ⟨a, ha⟩ := Option.isSome_iff_exists.1 h
  refine ⟨a, Prod.ext ?_ rfl⟩
  cases hx : (m.run x.run).1 with
  | error e =>
    rw [hx] at ha
    cases ha
  | ok b =>
    rw [hx] at ha
    cases ha
    rfl

theorem not_ends {x : Task (StateM Machine) α} (h : (m.run x.run).1.toOption = none) {a : α} : ¬x.Ends m a m' := by
  intro hx
  rw [Ends] at hx
  rw [hx] at h
  cases h

theorem ends_pure {a b : α} : (pure a : Task (StateM Machine) α).Ends m b m' ↔ a = b ∧ m = m' := by
  change ((Except.ok a, m) : Except Failure α × Machine) = (.ok b, m') ↔ _
  simp

theorem ends_throw {e : Failure} {a : α} : ¬(throw e : Task (StateM Machine) α).Ends m a m' := by
  intro h
  change ((Except.error e, m) : Except Failure α × Machine) = (.ok a, m') at h
  simp at h

theorem run_bind (m : Machine) (x : Task (StateM Machine) α) (f : α → Task (StateM Machine) β) :
    m.run (x >>= f).run =
      match m.run x.run with
      | (.ok a, m₁) => m₁.run (f a).run
      | (.error e, m₁) => (.error e, m₁) := by
  change m.run (x.run >>= ExceptT.bindCont f) = _
  rw [Machine.run_bind]
  cases hx : m.run x.run with
  | mk r m₁ => cases r <;> rfl

theorem ends_bind {x : Task (StateM Machine) α} {f : α → Task (StateM Machine) β} {b : β} :
    (x >>= f).Ends m b m' ↔ ∃ a m₁, x.Ends m a m₁ ∧ (f a).Ends m₁ b m' := by
  unfold Ends
  rw [run_bind]
  cases hx : m.run x.run with
  | mk r m₁ =>
    cases r with
    | error e => simp
    | ok a =>
      constructor
      · exact fun h => ⟨a, m₁, rfl, h⟩
      · rintro ⟨a', m₂, heq, h⟩
        cases heq
        exact h

theorem ends_lift {action : StateM Machine α} {a : α} :
    (liftM action : Task (StateM Machine) α).Ends m a m' ↔ m.run action = (a, m') := by
  change (Except.ok (m.run action).1, (m.run action).2) = (Except.ok a, m') ↔ _
  rw [Prod.mk.injEq, Except.ok.injEq, Prod.ext_iff]

theorem ends_liftExcept {x : Except Failure α} {a : α} :
    (liftM x : Task (StateM Machine) α).Ends m a m' ↔ x = .ok a ∧ m = m' := by
  change (x, m) = (Except.ok a, m') ↔ _
  rw [Prod.mk.injEq]

theorem run_attempt (m : Machine) (failure : FileError → Failure) (action : StateM Machine (Except FileError α)) :
    m.run (attempt failure action).run =
      match m.run action with
      | (.ok a, m₁) => (.ok a, m₁)
      | (.error e, m₁) => (.error (failure e), m₁) := by
  change m.run (action >>= _) = _
  rw [Machine.run_bind]
  cases ha : m.run action with
  | mk r m₁ => cases r <;> rfl

theorem ends_attempt {failure : FileError → Failure} {action : StateM Machine (Except FileError α)}
    {a : α} : (attempt failure action).Ends m a m' ↔ m.run action = (.ok a, m') := by
  unfold Ends
  rw [run_attempt]
  cases ha : m.run action with
  | mk r m₁ =>
    cases r with
    | error e => simp
    | ok a => simp

/-- Tasks that are run one after the other end as the first does and then the others. -/
theorem ends_mapM_cons {f : α → Task (StateM Machine) β} {a : α} {as : List α} {bs : List β} :
    ((a :: as).mapM f).Ends m bs m' ↔
      ∃ b m₁ bs', (f a).Ends m b m₁ ∧ (as.mapM f).Ends m₁ bs' m' ∧ bs = b :: bs' := by
  rw [List.mapM_cons, ends_bind]
  refine exists_congr fun b => exists_congr fun m₁ => ?_
  rw [ends_bind]
  constructor
  · rintro ⟨hb, bs', m₂, hbs, hend⟩
    obtain ⟨rfl, rfl⟩ := ends_pure.1 hend
    exact ⟨bs', hb, hbs, rfl⟩
  · rintro ⟨bs', hb, hbs, rfl⟩
    exact ⟨hb, bs', m', hbs, ends_pure.2 ⟨rfl, rfl⟩⟩

theorem ends_mapM_nil {f : α → Task (StateM Machine) β} {bs : List β} :
    (([] : List α).mapM f).Ends m bs m' ↔ bs = [] ∧ m = m' := by
  rw [List.mapM_nil, ends_pure, eq_comm]

theorem ends_mapM_of_forall {f : α → Task (StateM Machine) β} {r : α → β} {as : List α}
    (h : ∀ a ∈ as, (f a).Ends m (r a) m) : (as.mapM f).Ends m (as.map r) m := by
  induction as with
  | nil => exact ends_mapM_nil.2 ⟨rfl, rfl⟩
  | cons a as ih =>
    have hrest := ih fun b hb => h b (List.mem_cons_of_mem _ hb)
    exact ends_mapM_cons.2 ⟨r a, m, _, h a List.mem_cons_self, hrest, rfl⟩

theorem Ends.unique {x : Task (StateM Machine) α} {a b : α} {m₁ m₂ : Machine} (h : x.Ends m a m₁)
    (h' : x.Ends m b m₂) : a = b ∧ m₁ = m₂ := by
  have heq := h.symm.trans h'
  rw [Prod.mk.injEq, Except.ok.injEq] at heq
  exact heq

end Task

open ClientGen.Task

variable {path : Path}

/-! ## Files -/

theorem ends_isFile {b : Bool} :
    (isFile path : Task (StateM Machine) Bool).Ends m b m' ↔ m.files.isFile path = .ok b ∧ m = m' := by
  rw [isFile, ends_attempt]
  change ((m.files.isFile path, m) : Except FileError Bool × Machine) = (.ok b, m') ↔ _
  rw [Prod.mk.injEq]

theorem ends_readText {failure : Failure} {t : Text} :
    (readText failure path : Task (StateM Machine) Text).Ends m t m' ↔
      ∃ old, m.files.read path = .ok (.text old) ∧ t = unifyLineEnds old ∧ m = m' := by
  have hread {c : Content} {m₁ : Machine} :
      m.run (Host.read path : StateM Machine (Except FileError Content)) = (.ok c, m₁) ↔
        m.files.read path = .ok c ∧ m = m₁ := by
    change ((m.files.read path, m) : Except FileError Content × Machine) = (.ok c, m₁) ↔ _
    rw [Prod.mk.injEq]
  rw [readText, ends_bind]
  constructor
  · rintro ⟨c, m₁, hc, ht⟩
    obtain ⟨hold, rfl⟩ := hread.1 (ends_attempt.1 hc)
    cases c with
    | text old =>
      obtain ⟨rfl, rfl⟩ := ends_pure.1 ht
      exact ⟨old, hold, rfl, rfl⟩
    | bytes bs => exact absurd ht ends_throw
  · rintro ⟨old, hold, rfl, rfl⟩
    exact ⟨.text old, m, ends_attempt.2 (hread.2 ⟨hold, rfl⟩), ends_pure.2 ⟨rfl, rfl⟩⟩

theorem ends_writeText {failure : Failure} {t : Text} {u : Unit} :
    (writeText failure path t : Task (StateM Machine) Unit).Ends m u m' ↔
      ∃ files, m.files.write path (.text t) = .ok files ∧ m' = { m with files } := by
  have hrun : m.run (Host.write path t : StateM Machine (Except FileError Unit)) =
      Machine.change (fun files => files.write path (.text t)) m := rfl
  rw [writeText, ends_attempt, hrun]
  cases hw : m.files.write path (.text t) with
  | error e => simp [Machine.change, hw]
  | ok files => simp [Machine.change, hw, eq_comm]

theorem ends_makeOutput {u : Unit} :
    (makeOutput path : Task (StateM Machine) Unit).Ends m u m' ↔
      ∃ files, m.files.makeDirectories path = (.ok (), files) ∧ m' = { m with files } := by
  have hrun : m.run (Host.makeDirectories path : StateM Machine (Except FileError Unit)) =
      ((m.files.makeDirectories path).1, { m with files := (m.files.makeDirectories path).2 }) := rfl
  rw [makeOutput, ends_attempt, hrun]
  cases hd : m.files.makeDirectories path with
  | mk r files =>
    cases r with
    | error e => simp
    | ok v => simp [eq_comm]

theorem ends_warn {w : Warning} {u : Unit} :
    (warn w : Task (StateM Machine) Unit).Ends m u m' ↔ m' = { m with warnings := m.warnings ++ [w] } := by
  rw [warn, ends_lift]
  change ((), { m with warnings := m.warnings ++ [w] }) = (u, m') ↔ _
  simp [eq_comm]

/-- A file of the output is read as it is, its lines ended by line feeds, or it is not there. -/
theorem ends_readOutput? {t : Option Text} :
    (readOutput? path : Task (StateM Machine) (Option Text)).Ends m t m' ↔
      ((m.files.isFile path = .ok false ∧ t = none) ∨
        ∃ old, m.files.isFile path = .ok true ∧ m.files.read path = .ok (.text old) ∧
          t = some (unifyLineEnds old)) ∧ m = m' := by
  rw [readOutput?, ends_bind]
  constructor
  · rintro ⟨b, m₁, hb, ht⟩
    obtain ⟨hfile, rfl⟩ := ends_isFile.1 hb
    cases b with
    | false =>
      obtain ⟨rfl, rfl⟩ := ends_pure.1 ht
      exact ⟨.inl ⟨hfile, rfl⟩, rfl⟩
    | true =>
      rw [if_pos rfl, ends_bind] at ht
      obtain ⟨t₁, m₂, ht₁, ht⟩ := ht
      obtain ⟨old, hold, rfl, rfl⟩ := ends_readText.1 ht₁
      obtain ⟨rfl, rfl⟩ := ends_pure.1 ht
      exact ⟨.inr ⟨old, hfile, hold, rfl⟩, rfl⟩
  · rintro ⟨⟨hfile, rfl⟩ | ⟨old, hfile, hold, rfl⟩, rfl⟩
    · exact ⟨false, m, ends_isFile.2 ⟨hfile, rfl⟩, ends_pure.2 ⟨rfl, rfl⟩⟩
    · refine ⟨true, m, ends_isFile.2 ⟨hfile, rfl⟩, ?_⟩
      rw [if_pos rfl, ends_bind]
      exact ⟨_, m, ends_readText.2 ⟨old, hold, rfl, rfl⟩, ends_pure.2 ⟨rfl, rfl⟩⟩

end ClientGen
