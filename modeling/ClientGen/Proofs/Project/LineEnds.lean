import ClientGen.Project.Host
import ClientGen.Proofs.Json.RoundTrip
import ClientGen.Proofs.TypeScript.Region
/-!
# Line ends

Reading a text gives it line feeds alone. A text without carriage returns stays as it is, and what has no
line end at all stays where it is.
-/

namespace ClientGen

def IsOneLine (t : Text) : Prop := '\r' ∉ t ∧ '\n' ∉ t

private theorem unifyLineEnds_cons {c : Char} (h : c ≠ '\r') (t : Text) :
    unifyLineEnds (c :: t) = c :: unifyLineEnds t := by
  rw [unifyLineEnds]
  · intro s hc
    exact absurd hc h
  · intro hc
    exact absurd hc h

theorem unifyLineEnds_append {a : Text} (h : '\r' ∉ a) (b : Text) :
    unifyLineEnds (a ++ b) = a ++ unifyLineEnds b := by
  induction a with
  | nil => rfl
  | cons c a ih =>
    rw [List.mem_cons, not_or] at h
    rw [List.cons_append, unifyLineEnds_cons (Ne.symm h.1), ih h.2, List.cons_append]

theorem unifyLineEnds_of_notMem {t : Text} (h : '\r' ∉ t) : unifyLineEnds t = t := by
  simpa [unifyLineEnds] using unifyLineEnds_append h []

theorem notMem_unifyLineEnds (t : Text) : '\r' ∉ unifyLineEnds t := by
  fun_induction unifyLineEnds t with
  | case1 t ih => simpa using ih
  | case2 t _ ih => simpa using ih
  | case3 c t _ hc ih =>
    rw [List.mem_cons, not_or]
    exact ⟨fun h => hc h.symm, ih⟩
  | case4 => simp

theorem unifyLineEnds_eq_self_iff {t : Text} : unifyLineEnds t = t ↔ '\r' ∉ t :=
  ⟨fun h => h ▸ notMem_unifyLineEnds t, unifyLineEnds_of_notMem⟩

theorem Json.read_written {v : Value} (h : Json.IsJson v) :
    Json.read (unifyLineEnds (Json.write v ++ "\n")) = .ok v := by
  rw [unifyLineEnds_of_notMem (List.not_mem_append (Json.notMem_write h) (by decide))]
  exact Json.read_write h

private theorem unifyLineEnds_append_cons {c : Char} (hc : c ≠ '\n') (a b : Text) :
    unifyLineEnds (a ++ c :: b) = unifyLineEnds a ++ unifyLineEnds (c :: b) := by
  fun_induction unifyLineEnds a with
  | case1 a ih => rw [List.cons_append, List.cons_append, unifyLineEnds, ih, List.cons_append]
  | case2 a ha ih =>
    have hnext : ∀ s, a ++ c :: b ≠ '\n' :: s := by
      intro s hs
      cases a with
      | nil => exact hc (List.cons_eq_cons.1 hs).1
      | cons d a => exact ha a (by rw [(List.cons_eq_cons.1 hs).1])
    rw [List.cons_append, unifyLineEnds, ih, List.cons_append]
    exact fun s hs => hnext s hs
  | case3 d a _ hd ih =>
    rw [List.cons_append, unifyLineEnds_cons (fun h => hd h), ih, List.cons_append]
  | case4 => rfl

theorem unifyLineEnds_around {m : Text} (hne : m ≠ []) (hm : IsOneLine m) (a b : Text) :
    unifyLineEnds (a ++ m ++ b) = unifyLineEnds a ++ m ++ unifyLineEnds b := by
  obtain ⟨c, m, rfl⟩ := List.exists_cons_of_ne_nil hne
  have hc : c ≠ '\n' := by
    rintro rfl
    exact hm.2 List.mem_cons_self
  rw [List.append_assoc, List.cons_append, unifyLineEnds_append_cons hc, ← List.cons_append,
    unifyLineEnds_append hm.1, List.append_assoc]

private theorem prefix_of_prefix_unifyLineEnds {m t : Text} (hm : IsOneLine m) (h : m <+: unifyLineEnds t) :
    m <+: t := by
  fun_induction unifyLineEnds t generalizing m with
  | case4 => exact h
  | case3 c t _ _ ih =>
    cases m with
    | nil => exact List.nil_prefix
    | cons d m =>
      obtain ⟨rfl, htail⟩ := List.cons_prefix_cons.1 h
      have hm' : IsOneLine m :=
        ⟨fun hr => hm.1 (List.mem_cons_of_mem _ hr), fun hn => hm.2 (List.mem_cons_of_mem _ hn)⟩
      exact List.cons_prefix_cons.2 ⟨rfl, ih hm' htail⟩
  | _ =>
    cases m with
    | nil => exact List.nil_prefix
    | cons d m =>
      obtain ⟨rfl, -⟩ := List.cons_prefix_cons.1 h
      exact absurd List.mem_cons_self hm.2

theorem infix_of_infix_unifyLineEnds {m t : Text} (hm : IsOneLine m) (h : m <:+: unifyLineEnds t) :
    m <:+: t := by
  have hline {u : Text} (hu : m <:+: '\n' :: u) : m <:+: u := by
    rcases List.infix_cons_iff.1 hu with hu | hu
    · cases m with
      | nil => exact List.nil_infix
      | cons d m =>
        obtain ⟨rfl, -⟩ := List.cons_prefix_cons.1 hu
        exact absurd List.mem_cons_self hm.2
    · exact hu
  fun_induction unifyLineEnds t with
  | case1 t ih => exact ((ih (hline h)).trans (List.suffix_cons _ _).isInfix).trans (List.suffix_cons _ _).isInfix
  | case2 t _ ih => exact (ih (hline h)).trans (List.suffix_cons _ _).isInfix
  | case3 c t hr hn ih =>
    rcases List.infix_cons_iff.1 h with h | h
    · rw [← unifyLineEnds_cons fun hc => hn hc] at h
      exact (prefix_of_prefix_unifyLineEnds hm h).isInfix
    · exact (ih h).trans (List.suffix_cons _ _).isInfix
  | case4 => exact h

namespace MarkedFile

def unified (f : MarkedFile) : MarkedFile :=
  ⟨unifyLineEnds f.before, unifyLineEnds f.region, unifyLineEnds f.after⟩

private theorem isOneLine_startMarker : IsOneLine startMarker ∧ IsOneLine startMarker.dropLast := by
  unfold IsOneLine
  decide

private theorem isOneLine_endMarker : IsOneLine endMarker ∧ IsOneLine endMarker.dropLast := by
  unfold IsOneLine
  decide

private theorem unifyLineEnds_before (f : MarkedFile) :
    unifyLineEnds (f.before ++ startMarker ++ f.region) =
      f.unified.before ++ startMarker ++ f.unified.region :=
  unifyLineEnds_around (by decide) isOneLine_startMarker.1 f.before f.region

theorem unifyLineEnds_toText (f : MarkedFile) : unifyLineEnds f.toText = f.unified.toText := by
  rw [toText, unifyLineEnds_around (by decide) isOneLine_endMarker.1, unifyLineEnds_before]
  rfl

theorem IsProper.unified {f : MarkedFile} (hf : f.IsProper) : f.unified.IsProper where
  start_first h := by
    have hbegun := unifyLineEnds_around (by decide) isOneLine_startMarker.2 f.before []
    rw [List.append_nil] at hbegun
    refine hf.start_first (infix_of_infix_unifyLineEnds isOneLine_startMarker.1 ?_)
    rw [hbegun]
    exact h.trans (List.prefix_append _ _).isInfix
  end_first h := by
    have hbegun := unifyLineEnds_around (by decide) isOneLine_endMarker.2
      (f.before ++ startMarker ++ f.region) []
    rw [List.append_nil, unifyLineEnds_before] at hbegun
    refine hf.end_first (infix_of_infix_unifyLineEnds isOneLine_endMarker.1 ?_)
    rw [hbegun]
    exact h.trans (List.prefix_append _ _).isInfix

theorem ofText?_unifyLineEnds {t : Text} {f : MarkedFile} (h : ofText? t = some f) :
    ofText? (unifyLineEnds t) = some f.unified := by
  obtain ⟨rfl, hf⟩ := ofText?_eq_some_iff.1 h
  rw [unifyLineEnds_toText]
  exact ofText?_eq_some_iff.2 ⟨rfl, hf.unified⟩

end MarkedFile

end ClientGen
