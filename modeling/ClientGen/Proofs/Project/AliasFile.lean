import ClientGen.Proofs.Project.LineEnds
import ClientGen.Proofs.Project.Loading
import ClientGen.Proofs.Text.Entries
/-!
# Aliases kept in a file

What is written to the file of aliases is read back, and a second registration of the same categories adds
nothing.
-/

namespace ClientGen

open Text ClientGen.Task

/-! ## Registration -/

namespace Aliases

variable {a : Aliases} {tags : List Text}

theorem register_cons (a : Aliases) (tag : Text) (tags : List Text) :
    a.register (tag :: tags) =
      (if a.mapping.has tag then a
        else { a with mapping := a.mapping.put tag tag, discovered := a.discovered ++ [tag] }).register tags :=
  rfl

theorem register_of_has (h : ∀ tag ∈ tags, a.mapping.has tag = true) : a.register tags = a := by
  induction tags with
  | nil => rfl
  | cons tag tags ih =>
    rw [register_cons, if_pos (h tag List.mem_cons_self)]
    exact ih fun tag ht => h tag (List.mem_cons_of_mem _ ht)

theorem has_register {key : Text} (h : a.mapping.has key = true ∨ key ∈ tags) :
    (a.register tags).mapping.has key = true := by
  induction tags generalizing a with
  | nil =>
    rcases h with h | h
    · exact h
    · cases h
  | cons tag tags ih =>
    rw [register_cons]
    apply ih
    by_cases htag : a.mapping.has tag = true
    · rw [if_pos htag]
      rcases h with h | h
      · exact .inl h
      · rcases List.mem_cons.1 h with rfl | h
        · exact .inl htag
        · exact .inr h
    · rw [if_neg htag]
      rcases h with h | h
      · exact .inl (Table.has_iff.2 (Table.mem_keys_put.2 (.inr (Table.has_iff.1 h))))
      · rcases List.mem_cons.1 h with rfl | h
        · exact .inl (Table.has_iff.2 (Table.mem_keys_put.2 (.inl rfl)))
        · exact .inr h

theorem nodup_register (h : a.mapping.keys.Nodup) : (a.register tags).mapping.keys.Nodup := by
  induction tags generalizing a with
  | nil => exact h
  | cons tag tags ih =>
    rw [register_cons]
    apply ih
    split
    · exact h
    · exact Table.nodup_keys_put tag tag h

theorem source_register : (a.register tags).source = a.source := by
  induction tags generalizing a with
  | nil => rfl
  | cons tag tags ih =>
    rw [register_cons, ih]
    split <;> rfl

/-- Of registered aliases, registering the same categories again changes nothing. -/
theorem register_again {b : Aliases} (h : b.mapping = (a.register tags).mapping) : b.register tags = b := by
  apply register_of_has
  intro tag ht
  rw [h]
  exact has_register (.inr ht)

private theorem discovered_ne_nil (h : a.discovered ≠ []) : (a.register tags).discovered ≠ [] := by
  induction tags generalizing a with
  | nil => exact h
  | cons tag tags ih =>
    rw [register_cons]
    apply ih
    split
    · exact h
    · simp

theorem register_of_discovered (h : (a.register tags).discovered = []) :
    ∀ tag ∈ tags, a.mapping.has tag = true := by
  induction tags with
  | nil => simp
  | cons tag tags ih =>
    rw [register_cons] at h
    by_cases htag : a.mapping.has tag = true
    · rw [if_pos htag] at h
      intro key hkey
      rcases List.mem_cons.1 hkey with rfl | hkey
      · exact htag
      · exact ih h key hkey
    · rw [if_neg htag] at h
      exact absurd h (discovered_ne_nil (by simp))

end Aliases

/-! ## Warnings -/

def Machine.warned (m : Machine) (ws : List Warning) : Machine := { m with warnings := m.warnings ++ ws }

@[simp] theorem Machine.warned_nil (m : Machine) : m.warned [] = m := by simp [warned]

/-- A task that does nothing but warn, the same on every machine, with values that satisfy `P`. -/
def Task.OnlyWarns {α : Type} (P : α → Prop) (x : Task (StateM Machine) α) : Prop :=
  ∀ m a m', x.Ends m a m' → P a ∧ ∃ ws, m' = m.warned ws ∧ ∀ n : Machine, x.Ends n a (n.warned ws)

namespace Task.OnlyWarns

variable {α : Type} {P : α → Prop}

theorem pure {a : α} (h : P a) : OnlyWarns P (pure a) := by
  intro m b m' hb
  obtain ⟨rfl, rfl⟩ := ends_pure.1 hb
  exact ⟨h, [], by simp, fun n => ends_pure.2 ⟨rfl, by simp⟩⟩

theorem throw (e : Failure) : OnlyWarns P (throw e : Task (StateM Machine) α) :=
  fun _ _ _ h => absurd h ends_throw

theorem warn {w : Warning} {x : Task (StateM Machine) α} (h : OnlyWarns P x) :
    OnlyWarns P (ClientGen.warn w >>= fun _ => x) := by
  intro m b m' hb
  obtain ⟨_, m₁, hw, hx⟩ := ends_bind.1 hb
  obtain rfl := ends_warn.1 hw
  obtain ⟨hp, ws, rfl, hagain⟩ := h _ b m' hx
  refine ⟨hp, w :: ws, by simp [Machine.warned], fun n => ?_⟩
  have hn := hagain { n with warnings := n.warnings ++ [w] }
  refine ends_bind.2 ⟨(), _, ends_warn.2 rfl, ?_⟩
  simpa [Machine.warned] using hn

theorem ends {x : Task (StateM Machine) α} {m m' : Machine} {a : α} (hx : OnlyWarns P x)
    (h : x.Ends m a m') : P a ∧ ∃ ws, m' = m.warned ws ∧ ∀ n : Machine, x.Ends n a (n.warned ws) :=
  hx m a m' h

end Task.OnlyWarns

/-! ## The file -/

variable {m m' : Machine} {output : Path} {mapping : Table Text}

private theorem ends_read {path : Path} {r : Except FileError Content} :
    (liftM (Host.read path : StateM Machine (Except FileError Content)) : Task (StateM Machine) _).Ends m r m' ↔
      m.files.read path = r ∧ m = m' := by
  rw [ends_lift]
  change (m.files.read path, m) = (r, m') ↔ _
  rw [Prod.mk.injEq]

/-- What is read of the file of aliases depends on that file alone. -/
theorem ends_readAliasFile_again
    (h : (readAliasFile output : Task (StateM Machine) (Table Text)).Ends m mapping m') :
    mapping.keys.Nodup ∧
      (mapping ≠ [] → ∃ p c, m.files.find true (output.child aliasFileName) = .ok (p, some (.file c))) ∧
      ∃ ws, m' = m.warned ws ∧ ∀ n : Machine,
        n.files.find true (output.child aliasFileName) = m.files.find true (output.child aliasFileName) →
          (readAliasFile output : Task (StateM Machine) (Table Text)).Ends n mapping (n.warned ws) := by
  unfold readAliasFile at h ⊢
  dsimp only at h ⊢
  obtain ⟨b, m₁, hb, h⟩ := ends_bind.1 h
  obtain ⟨hfile, rfl⟩ := ends_isFile.1 hb
  cases b with
  | false =>
    obtain ⟨rfl, rfl⟩ := ends_pure.1 h
    refine ⟨List.nodup_nil, fun hne => absurd rfl hne, [], by simp, fun n hn => ?_⟩
    have hfile' := (FileTree.isFile_congr hn).trans hfile
    exact ends_bind.2 ⟨false, n, ends_isFile.2 ⟨hfile', rfl⟩, ends_pure.2 ⟨rfl, by simp⟩⟩
  | true =>
    obtain ⟨r, m₂, hr, h⟩ := ends_bind.1 h
    obtain ⟨hread, rfl⟩ := ends_read.1 hr
    obtain ⟨hnodup, ws, rfl, hagain⟩ := Task.OnlyWarns.ends (P := fun t : Table Text => t.keys.Nodup) (by
      split
      · exact .throw _
      · exact .warn (.pure List.nodup_nil)
      · exact .throw _
      · split
        · exact .throw _
        · exact .warn (.pure List.nodup_nil)
        · exact .pure (Table.nodup_keys_ofEntries _)
        · exact .warn (.pure List.nodup_nil)) h
    refine ⟨hnodup, fun _ => FileTree.isFile_eq_true_iff.1 hfile, ws, rfl, fun n hn => ?_⟩
    have hfile' := (FileTree.isFile_congr hn).trans hfile
    have hread' := (FileTree.read_congr hn).trans hread
    exact ends_bind.2 ⟨true, n, ends_isFile.2 ⟨hfile', rfl⟩, ends_bind.2 ⟨r, n, ends_read.2 ⟨hread', rfl⟩, hagain n⟩⟩

/-- A file that holds an object of texts gives the table of its entries. -/
theorem ends_readAliasFile_of_object {p : Place} {u : Text} (hn : mapping.keys.Nodup)
    (hf : m.files.find true (output.child aliasFileName) = .ok (p, some (.file (.text u))))
    (hjson : Json.read (unifyLineEnds u) = .ok (.object (Json.textFields mapping))) :
    (readAliasFile output : Task (StateM Machine) (Table Text)).Ends m mapping m := by
  have hfile := FileTree.isFile_eq_true_iff.2 ⟨p, _, hf⟩
  have hread := FileTree.read_eq_ok_iff.2 ⟨p, hf⟩
  have hfields : Aliases.ofFields (Json.textFields mapping) = mapping := by
    have hentries : (Json.textFields mapping).map (fun e => (e.1.toText, e.2.toText)) = mapping := by
      rw [Json.textFields, List.map_map]
      exact List.map_id mapping
    change Table.ofEntries ((Json.textFields mapping).map fun e => (e.1.toText, e.2.toText)) = mapping
    rw [hentries, Table.ofEntries_of_nodup hn]
  unfold readAliasFile
  dsimp only
  refine ends_bind.2 ⟨true, m, ends_isFile.2 ⟨hfile, rfl⟩, ends_bind.2 ⟨_, m, ends_read.2 ⟨hread, rfl⟩, ?_⟩⟩
  simp only [hjson]
  exact ends_pure.2 ⟨hfields, rfl⟩

/-- What is written of a table is read as the object of its entries. -/
theorem Aliases.read_written (hn : mapping.keys.Nodup) :
    Json.read (unifyLineEnds (Json.write (Aliases.toValue mapping) ++ "\n")) =
      .ok (.object (Json.textFields mapping)) :=
  Json.read_written (Json.isJson_textFields hn)

theorem ends_readAliasFile_written {p : Place} (hn : mapping.keys.Nodup)
    (hf : m.files.find true (output.child aliasFileName) =
      .ok (p, some (.file (.text (Json.write (Aliases.toValue mapping) ++ "\n"))))) :
    (readAliasFile output : Task (StateM Machine) (Table Text)).Ends m mapping m :=
  ends_readAliasFile_of_object hn hf (Aliases.read_written hn)

end ClientGen
