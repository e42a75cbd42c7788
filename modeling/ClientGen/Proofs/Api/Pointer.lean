import ClientGen.Api.Pointer
import ClientGen.Proofs.Document.Fields
import ClientGen.Proofs.Text.Lines
import Mathlib.Data.List.Perm.Subperm
import Mathlib.Logic.Relation
/-!
# Chains of references

The search for an object follows references from value to value. It ends in every document, and it finds an object
exactly if a chain of references leads there and the object has none itself.
-/

namespace ClientGen.Pointer

open Text

variable {document fields : Fields} {ref : Text} {seen : List Text} {v w : Value} {r : Option Fields}

/-! ## Where a reference leads -/

/-- Keys lead from a value to another one, through one object after the other. -/
inductive Leads : Value → List Text → Value → Prop
  | nil {v : Value} : Leads v [] v
  | cons {fields : Fields} {key : Text} {inner w : Value} {keys : List Text} (h : fields.get? key = some inner)
    (hw : Leads inner keys w) : Leads (.object fields) (key :: keys) w

theorem descend?_eq_some_iff {keys : List Text} : descend? keys v = some w ↔ Leads v keys w := by
  induction keys generalizing v with
  | nil =>
    constructor
    · rintro ⟨⟩
      exact .nil
    · rintro ⟨⟩
      rfl
  | cons key keys ih =>
    constructor
    · intro h
      obtain ⟨inner, hinner, hw⟩ := Option.bind_eq_some_iff.1 h
      obtain ⟨fields, hfields, hget⟩ := Option.bind_eq_some_iff.1 hinner
      cases v with
      | object fs =>
        cases hfields
        exact .cons hget (ih.1 hw)
      | _ => cases hfields
    · rintro (_ | ⟨hget, hw⟩)
      simp [descend?, Value.fields?, hget, ih.2 hw]

/-- A local reference is a path of tokens, and names what the keys of its tokens lead to. -/
def Names (document : Fields) (ref : Text) (v : Value) : Prop :=
  ∃ tokens : List Text, tokens ≠ [] ∧ (∀ t ∈ tokens, '/' ∉ t) ∧ ref = "#/".toList ++ join "/" tokens ∧
    Leads (.object document) (tokens.map key) v

theorem lookup?_eq_some_iff : lookup? document ref = some v ↔ Names document ref v := by
  unfold lookup? keys?
  constructor
  · intro h
    obtain ⟨keys, hkeys, hv⟩ := Option.bind_eq_some_iff.1 h
    obtain ⟨path, hpath, rfl⟩ := Option.map_eq_some_iff.1 hkeys
    refine ⟨splitOn '/' path, splitBy_ne_nil _ path, fun t ht => notMem_of_mem_splitOn ht, ?_,
      descend?_eq_some_iff.1 hv⟩
    rw [afterStart?_eq_some_iff.1 hpath]
    exact congrArg _ (join_splitOn '/' path).symm
  · rintro ⟨tokens, hne, htokens, rfl, hv⟩
    have hsplit : splitOn '/' (join "/" tokens) = tokens := splitOn_join hne htokens
    rw [afterStart?_append, Option.map_some, hsplit, Option.bind_some]
    exact descend?_eq_some_iff.2 hv

theorem Names.unique (h : Names document ref v) (h' : Names document ref w) : v = w :=
  Option.some.inj ((lookup?_eq_some_iff.2 h).symm.trans (lookup?_eq_some_iff.2 h'))

/-- An object refers to what its reference names. -/
inductive Refers (document : Fields) : Value → Value → Prop
  | intro {fields : Fields} {ref : Text} {v : Value} (href : ref? fields = some ref) (hv : Names document ref v) :
    Refers document (.object fields) v

theorem Refers.unique {w' : Value} (h : Refers document v w) (h' : Refers document v w') : w = w' := by
  obtain ⟨href, hv⟩ := h
  obtain ⟨href', hv'⟩ := h'
  obtain rfl := Option.some.inj (href.symm.trans href')
  exact hv.unique hv'

theorem not_refers_of_ref? (h : ref? fields = none) : ¬Refers document (.object fields) w := by
  rintro ⟨href, -⟩
  rw [h] at href
  cases href

/-! ## Runs of the search -/

/-- How the search goes on from a value when it has seen some references, until it ends with an object or without. -/
inductive Ends (document : Fields) : List Text → Value → Option Fields → Prop
  | other {seen : List Text} {v : Value} (hv : v.fields? = none) : Ends document seen v none
  | found {seen : List Text} {fields : Fields} (href : ref? fields = none) :
    Ends document seen (.object fields) (some fields)
  | again {seen : List Text} {fields : Fields} {ref : Text} (href : ref? fields = some ref) (hseen : ref ∈ seen) :
    Ends document seen (.object fields) none
  | lost {seen : List Text} {fields : Fields} {ref : Text} (href : ref? fields = some ref) (hseen : ref ∉ seen)
    (hnone : lookup? document ref = none) : Ends document seen (.object fields) none
  | next {seen : List Text} {fields : Fields} {ref : Text} {v : Value} {r : Option Fields}
    (href : ref? fields = some ref) (hseen : ref ∉ seen) (hv : lookup? document ref = some v)
    (h : Ends document (ref :: seen) v r) : Ends document seen (.object fields) r

/-- The search behind a reference that is not seen yet goes on with what it names, if it names something. -/
theorem ends_unseen_iff (href : ref? fields = some ref) (hseen : ref ∉ seen) :
    Ends document seen (.object fields) r ↔
      (lookup? document ref).elim (r = none) fun v => Ends document (ref :: seen) v r := by
  constructor
  · intro h
    cases h with
    | other hv => cases hv
    | found h => simp [href] at h
    | again h hs =>
      obtain rfl := Option.some.inj (href.symm.trans h)
      exact absurd hs hseen
    | lost h _ hnone =>
      obtain rfl := Option.some.inj (href.symm.trans h)
      rw [hnone, Option.elim_none]
    | next h _ hv hr =>
      obtain rfl := Option.some.inj (href.symm.trans h)
      rwa [hv, Option.elim_some]
  · cases hv : lookup? document ref with
    | none =>
      rintro rfl
      exact .lost href hseen hv
    | some v => exact .next href hseen hv

theorem Ends.unique {r' : Option Fields} (h : Ends document seen v r) (h' : Ends document seen v r') : r = r' := by
  induction h with
  | other hv =>
    cases h' with
    | other _ => rfl
    | _ => cases hv
  | found href =>
    cases h' with
    | found _ => rfl
    | other hv => cases hv
    | again h _ | lost h _ _ | next h _ _ _ => simp [href] at h
  | again href hseen =>
    cases h' with
    | found h => simp [href] at h
    | next h hs _ _ =>
      obtain rfl := Option.some.inj (href.symm.trans h)
      exact absurd hseen hs
    | _ => rfl
  | lost href hseen hnone =>
    rw [ends_unseen_iff href hseen, hnone] at h'
    exact h'.symm
  | next href hseen hv _ ih =>
    rw [ends_unseen_iff href hseen, hv] at h'
    exact ih h'

/-! ### The number of steps -/

mutual

/-- The references of the objects that keys lead to. -/
def innerRefs : Value → List Text
  | .object fields => (ref? fields).toList ++ innerRefsOf fields
  | .scalar _ | .list _ | .pair .. | .set _ => []
termination_by structural v => v

def innerRefsOf : List (Scalar × Value) → List Text
  | [] => []
  | (_, v) :: fields => innerRefs v ++ innerRefsOf fields
termination_by structural fields => fields

end

mutual

theorem length_innerRefs_le : (v : Value) → (innerRefs v).length ≤ objectCount v
  | .object fields => by
    have hfields := length_innerRefsOf_le fields
    rw [innerRefs, objectCount, List.length_append]
    cases ref? fields <;> simp only [Option.toList, List.length_nil, List.length_singleton] <;> omega
  | .scalar _ | .list _ | .pair .. | .set _ => Nat.zero_le _
termination_by structural v => v

theorem length_innerRefsOf_le : (fields : List (Scalar × Value)) →
    (innerRefsOf fields).length ≤ objectCountFields fields
  | [] => Nat.zero_le _
  | (_, v) :: fields => by
    rw [innerRefsOf, objectCountFields, List.length_append]
    exact Nat.add_le_add (length_innerRefs_le v) (length_innerRefsOf_le fields)
termination_by structural fields => fields

end

private theorem innerRefs_subset_of_mem {key : Scalar} (h : (key, v) ∈ fields) : innerRefs v ⊆ innerRefsOf fields := by
  induction fields with
  | nil => cases h
  | cons e fields ih =>
    intro ref href
    rw [innerRefsOf, List.mem_append]
    rcases List.mem_cons.1 h with rfl | h
    · exact .inl href
    · exact .inr (ih h href)

theorem Leads.innerRefs_subset {keys : List Text} (h : Leads v keys w) : innerRefs w ⊆ innerRefs v := by
  induction h with
  | nil => exact List.Subset.refl _
  | cons hget _ ih =>
    obtain ⟨key, hmem⟩ := Fields.mem_of_find? hget
    intro ref href
    rw [innerRefs, List.mem_append]
    exact .inr (innerRefs_subset_of_mem hmem (ih href))

def ownRef? (v : Value) : Option Text := v.fields?.bind ref?

theorem Names.ownRef?_mem (h : Names document ref v) : ∀ own ∈ ownRef? v, own ∈ innerRefs (.object document) := by
  intro own hown
  obtain ⟨_, -, -, -, hleads⟩ := h
  refine hleads.innerRefs_subset ?_
  cases v with
  | object fields =>
    rw [innerRefs, List.mem_append]
    exact .inl (Option.mem_toList.2 hown)
  | _ => cases hown

/-- No reference is followed twice, so the search ends before it has followed more references than there are. -/
theorem ends_follow {known : List Text} (hknown : innerRefs (.object document) ⊆ known) {fuel : Nat}
    (hv : ∀ own ∈ ownRef? v, own ∈ known) (hnodup : seen.Nodup) (hseen : seen ⊆ known)
    (hfuel : known.length < fuel + seen.length) : Ends document seen v (follow document fuel seen v) := by
  induction fuel generalizing seen v with
  | zero =>
    have hle := (List.Nodup.subperm hnodup hseen).length_le
    omega
  | succ fuel ih =>
    cases v with
    | object fields =>
      cases href : ref? fields with
      | none =>
        have hfound : follow document (fuel + 1) seen (.object fields) = some fields := by
          simp [follow, Value.fields?, href]
        exact hfound ▸ .found href
      | some ref =>
        by_cases hs : ref ∈ seen
        · have hagain : follow document (fuel + 1) seen (.object fields) = none := by
            simp [follow, Value.fields?, href, hs]
          exact hagain ▸ .again href hs
        · have hnext : follow document (fuel + 1) seen (.object fields) =
              (lookup? document ref).bind (follow document fuel (ref :: seen)) := by
            simp [follow, Value.fields?, href, hs]
          rw [ends_unseen_iff href hs, hnext]
          cases hw : lookup? document ref with
          | none => rfl
          | some w =>
            refine ih (fun own hown => hknown ((lookup?_eq_some_iff.1 hw).ownRef?_mem own hown))
              (List.nodup_cons.2 ⟨hs, hnodup⟩) (List.cons_subset.2 ⟨hv ref href, hseen⟩) ?_
            rw [List.length_cons]
            omega
    | _ => exact .other rfl

theorem ends_resolve (document : Fields) (v : Value) : Ends document [] v (resolve document v) := by
  have hcount := length_innerRefs_le (.object document)
  rw [objectCount] at hcount
  have hknown : innerRefs (.object document) ⊆ (ownRef? v).toList ++ innerRefs (.object document) :=
    List.subset_append_right _ _
  refine ends_follow hknown (fun own hown => List.mem_append_left _ (Option.mem_toList.2 hown))
    List.nodup_nil (List.nil_subset _) ?_
  rw [List.length_append, List.length_nil]
  cases ownRef? v <;> simp only [Option.toList, List.length_nil, List.length_singleton] <;> omega

/-! ## Chains -/

/-- A value behind which no object is found: it is no object, its reference names nothing, or it is met again. -/
inductive IsDeadEnd (document : Fields) : Value → Prop
  | other {v : Value} (hv : v.fields? = none) : IsDeadEnd document v
  | lost {fields : Fields} {ref : Text} (href : ref? fields = some ref) (hnone : ∀ v, ¬Names document ref v) :
    IsDeadEnd document (.object fields)
  | cycle {v : Value} (h : Relation.TransGen (Refers document) v v) : IsDeadEnd document v

/-- A chain from a value to an object without a reference. -/
def FindsBy (document : Fields) (v : Value) (fields : Fields) : Prop :=
  Relation.ReflTransGen (Refers document) v (.object fields) ∧ ref? fields = none

theorem FindsBy.behind (h : FindsBy document v fields) (hw : Relation.ReflTransGen (Refers document) v w) :
    FindsBy document w fields := by
  obtain ⟨hchain, hend⟩ := h
  refine ⟨?_, hend⟩
  have hunique : Relator.RightUnique (Refers document) := fun _ _ _ => Refers.unique
  rcases Relation.ReflTransGen.total_of_right_unique hunique hchain hw with hback | hforth
  · -- nothing follows the end of a chain
    rcases hback.cases_head with rfl | ⟨_, hstep, -⟩
    · exact .refl
    · exact absurd hstep (not_refers_of_ref? hend)
  · exact hforth

theorem FindsBy.not_cycle (h : FindsBy document v fields) : ¬Relation.TransGen (Refers document) v v := by
  obtain ⟨hchain, hend⟩ := h
  induction hchain using Relation.ReflTransGen.head_induction_on with
  | refl =>
    intro hcycle
    obtain ⟨_, hstep, -⟩ := Relation.TransGen.head'_iff.1 hcycle
    exact not_refers_of_ref? hend hstep
  | head hstep _ ih =>
    intro hcycle
    obtain ⟨_, hstep', hback⟩ := Relation.TransGen.head'_iff.1 hcycle
    obtain rfl := hstep.unique hstep'
    exact ih (Relation.TransGen.tail'_iff.2 ⟨_, hback, hstep⟩)

theorem FindsBy.not_isDeadEnd (h : FindsBy document v fields) : ¬IsDeadEnd document v := by
  intro hdead
  cases hdead with
  | cycle hcycle => exact h.not_cycle hcycle
  | other hv =>
    rcases h.1.cases_head with rfl | ⟨_, hstep, -⟩
    · cases hv
    · cases hstep
      cases hv
  | lost href hnone =>
    rcases h.1.cases_head with heq | ⟨_, hstep, -⟩
    · cases heq
      simp [h.2] at href
    · obtain ⟨href', hw⟩ := hstep
      obtain rfl := Option.some.inj (href.symm.trans href')
      exact hnone _ hw

theorem Ends.findsBy (h : Ends document seen v (some fields)) : FindsBy document v fields := by
  generalize hr : some fields = r at h
  induction h with
  | found href =>
    cases hr
    exact ⟨.refl, href⟩
  | next href _ hv _ ih =>
    obtain ⟨hchain, hend⟩ := ih hr
    exact ⟨.head (.intro href (lookup?_eq_some_iff.1 hv)) hchain, hend⟩
  | _ => cases hr

/-- What the references seen so far name leads to the place of the search, so that a reference seen again closes a
cycle. -/
theorem Ends.exists_deadEnd (h : Ends document seen v none)
    (hseen : ∀ ref ∈ seen, ∃ w, Names document ref w ∧ Relation.ReflTransGen (Refers document) w v) :
    ∃ w, Relation.ReflTransGen (Refers document) v w ∧ IsDeadEnd document w := by
  generalize hr : none = r at h
  induction h with
  | other hv => exact ⟨_, .refl, .other hv⟩
  | found _ => cases hr
  | again href hs =>
    obtain ⟨w, hw, hback⟩ := hseen _ hs
    exact ⟨_, .refl, .cycle (Relation.TransGen.head'_iff.2 ⟨w, .intro href hw, hback⟩)⟩
  | lost href _ hnone =>
    refine ⟨_, .refl, .lost href fun w hw => ?_⟩
    rw [lookup?_eq_some_iff.2 hw] at hnone
    cases hnone
  | @next seen fields ref v _ href _ hv _ ih =>
    have hstep : Refers document (.object fields) v := .intro href (lookup?_eq_some_iff.1 hv)
    have hnext : ∀ own ∈ ref :: seen, ∃ w, Names document own w ∧ Relation.ReflTransGen (Refers document) w v := by
      intro own hown
      rcases List.mem_cons.1 hown with rfl | hown
      · exact ⟨v, lookup?_eq_some_iff.1 hv, .refl⟩
      · obtain ⟨w, hw, hback⟩ := hseen own hown
        exact ⟨w, hw, hback.tail hstep⟩
    obtain ⟨w, hchain, hdead⟩ := ih hnext hr
    exact ⟨w, .head hstep hchain, hdead⟩

/-- The search for an object ends in every document. It finds an object exactly if a chain of references leads from the
value to it and it has none itself, and it finds nothing exactly if a chain leads to a dead end: to no object, to a
reference that names nothing, or to a value that it meets again. -/
theorem resolve_follows_chains (document : Fields) (v : Value) :
    (∀ r, Ends document [] v r ↔ resolve document v = r) ∧
    (∀ fields, resolve document v = some fields ↔
      Relation.ReflTransGen (Refers document) v (.object fields) ∧ ref? fields = none) ∧
    (resolve document v = none ↔ ∃ w, Relation.ReflTransGen (Refers document) v w ∧ IsDeadEnd document w) := by
  have hends := ends_resolve document v
  have hnone : (∃ w, Relation.ReflTransGen (Refers document) v w ∧ IsDeadEnd document w) →
      resolve document v = none := by
    rintro ⟨w, hchain, hdead⟩
    cases hr : resolve document v with
    | none => rfl
    | some fields => exact absurd hdead ((hr ▸ hends).findsBy.behind hchain).not_isDeadEnd
  refine ⟨fun r => ⟨fun h => hends.unique h, fun h => h ▸ hends⟩, fun fields => ⟨fun h => ?_, fun h => ?_⟩, ?_, hnone⟩
  · exact (h ▸ hends).findsBy
  · cases hr : resolve document v with
    | none =>
      obtain ⟨w, hchain, hdead⟩ := (hr ▸ hends).exists_deadEnd fun _ hmem => nomatch hmem
      exact absurd hdead (FindsBy.behind h hchain).not_isDeadEnd
    | some found =>
      have hfound := (hr ▸ hends).findsBy
      rcases (FindsBy.behind h hfound.1).1.cases_head with heq | ⟨_, hstep, -⟩
      · cases heq
        rfl
      · exact absurd hstep (not_refers_of_ref? hfound.2)
  · intro h
    exact (h ▸ hends).exists_deadEnd fun _ hmem => nomatch hmem

/-- Behind two references there is an object, and behind a reference to itself there is none. -/
example :
    let reference (ref : Text) : Value := .object [(.text "$ref", .text ref)]
    let page : Fields := [(.text "in", .text "query")]
    let document : Fields :=
      [(.text "a/b", reference "#/c"), (.text "c", .object page), (.text "d", reference "#/d")]
    resolve document (reference "#/a~1b") = some page ∧ resolve document (reference "#/d") = none :=
  ⟨rfl, rfl⟩

end ClientGen.Pointer
