import ClientGen.Proofs.Schema.References
import ClientGen.Proofs.Text.Entries
/-!
# Reachability

A walk lists every entry of its table that is reached from the agenda, each once. In which order the agenda
is worked off decides the order of the list alone; depth first, it is the order of the first visits.
-/

namespace ClientGen

open Text

section Walks

variable {α : Type} {leadsTo : α → List Text} {table : Table α}

/-- The keys of a table that are reached from an agenda when those seen are not passed. -/
inductive Reaches (leadsTo : α → List Text) (table : Table α) (seen agenda : List Text) : Text → Prop
  | start {key : Text} {v : α} (ha : key ∈ agenda) (hs : key ∉ seen) (hv : table.get? key = some v) :
    Reaches leadsTo table seen agenda key
  | step {key next : Text} {v w : α} (h : Reaches leadsTo table seen agenda key)
    (hv : table.get? key = some v) (hn : next ∈ leadsTo v) (hs : next ∉ seen)
    (hw : table.get? next = some w) : Reaches leadsTo table seen agenda next

namespace Reaches

variable {seen agenda : List Text} {key : Text} {v : α}

theorem unseen (h : Reaches leadsTo table seen agenda key) : key ∉ seen := by
  cases h with
  | start _ hs _ => exact hs
  | step _ _ _ hs _ => exact hs

theorem nil : ¬Reaches leadsTo table seen [] key := by
  intro h
  generalize hnil : ([] : List Text) = agenda at h
  induction h with
  | start ha _ _ => simp [← hnil] at ha
  | step _ _ _ _ _ ih => exact ih

theorem mono {agenda' : List Text} (ha : ∀ k ∈ agenda, k ∈ agenda')
    (h : Reaches leadsTo table seen agenda key) : Reaches leadsTo table seen agenda' key := by
  induction h with
  | start hk hs hv => exact .start (ha _ hk) hs hv
  | step _ hv hn hs hw ih => exact .step ih hv hn hs hw

theorem of_skipped {k : Text} {waiting : List Text} (hk : k ∈ seen ∨ table.get? k = none)
    (h : Reaches leadsTo table seen (k :: waiting) key) : Reaches leadsTo table seen waiting key := by
  induction h with
  | start ha hs hv =>
    rcases List.mem_cons.1 ha with rfl | ha
    · rcases hk with hk | hk
      · exact absurd hk hs
      · simp [hk] at hv
    · exact .start ha hs hv
  | step _ hv hn hs hw ih => exact .step ih hv hn hs hw

theorem of_visited {k : Text} {waiting agenda' : List Text} (hs : k ∉ seen) (hv : table.get? k = some v)
    (ha : ∀ j ∈ agenda', j ∈ waiting ∨ j ∈ leadsTo v)
    (h : Reaches leadsTo table (k :: seen) agenda' key) :
    Reaches leadsTo table seen (k :: waiting) key := by
  induction h with
  | start hj hjs hjv =>
    have hjs := fun hj => hjs (List.mem_cons_of_mem k hj)
    rcases ha _ hj with hj | hj
    · exact .start (List.mem_cons_of_mem k hj) hjs hjv
    · exact .step (.start List.mem_cons_self hs hv) hv hj hjs hjv
  | step _ hv' hn hns hw ih =>
    exact .step ih hv' hn (fun hj => hns (List.mem_cons_of_mem k hj)) hw

theorem eq_or_behind {k : Text} {waiting agenda' : List Text} (hv : table.get? k = some v)
    (ha : ∀ j, j ∈ waiting ∨ j ∈ leadsTo v → j ∈ agenda')
    (h : Reaches leadsTo table seen (k :: waiting) key) :
    key = k ∨ Reaches leadsTo table (k :: seen) agenda' key := by
  have unseen {j : Text} (hj : j ≠ k) (hs : j ∉ seen) : j ∉ k :: seen := by simp [hj, hs]
  induction h with
  | @start j w hj hs hw =>
    by_cases hjk : j = k
    · exact .inl hjk
    · have hj := (List.mem_cons.1 hj).resolve_left hjk
      exact .inr (.start (ha j (.inl hj)) (unseen hjk hs) hw)
  | @step i j v' w _ hv' hn hs hw ih =>
    by_cases hjk : j = k
    · exact .inl hjk
    · rcases ih with rfl | ih
      · obtain rfl : v' = v := by simpa [hv'] using hv
        exact .inr (.start (ha j (.inr hn)) (unseen hjk hs) hw)
      · exact .inr (.step ih hv' hn (unseen hjk hs) hw)

end Reaches

theorem WalkOrder.mem_agenda {order : WalkOrder} {waiting new : List Text} {key : Text} :
    key ∈ order.agenda waiting new ↔ key ∈ waiting ∨ key ∈ new := by
  cases order <;> simp [agenda, or_comm]

theorem walk_nil (order : WalkOrder) (seen : List Text) : walk order leadsTo table seen [] = [] := by
  rw [walk]

theorem walk_skipped (order : WalkOrder) {seen waiting : List Text} {key : Text}
    (h : key ∈ seen ∨ table.get? key = none) :
    walk order leadsTo table seen (key :: waiting) = walk order leadsTo table seen waiting := by
  rw [walk]
  by_cases hs : key ∈ seen
  · rw [dif_pos hs]
  · rw [dif_neg hs]
    split
    · rfl
    · next v hv => simp [h.resolve_left hs] at hv

theorem walk_visited (order : WalkOrder) {seen waiting : List Text} {key : Text} {v : α} (hs : key ∉ seen)
    (hv : table.get? key = some v) :
    walk order leadsTo table seen (key :: waiting) =
      (key, v) :: walk order leadsTo table (key :: seen) (order.agenda waiting (leadsTo v)) := by
  rw [walk, dif_neg hs]
  split
  · next hn => simp [hn] at hv
  · next w hw =>
    obtain rfl : w = v := by simpa [hw] using hv
    rfl

/-- What is shown of a walk may be shown step by step: of an empty agenda, of a key that is passed over and of
one that is visited. -/
@[elab_as_elim]
theorem walkInduction (order : WalkOrder) (leadsTo : α → List Text) (table : Table α)
    {motive : List Text → List Text → Prop} (done : ∀ seen, motive seen [])
    (skipped : ∀ seen key waiting, key ∈ seen ∨ table.get? key = none → motive seen waiting →
      motive seen (key :: waiting))
    (visited : ∀ seen key waiting v, key ∉ seen → table.get? key = some v →
      motive (key :: seen) (order.agenda waiting (leadsTo v)) → motive seen (key :: waiting))
    (seen agenda : List Text) : motive seen agenda := by
  induction seen, agenda using walk.induct order leadsTo table with
  | case1 seen => exact done seen
  | case2 seen key waiting hs ih => exact skipped seen key waiting (.inl hs) ih
  | case3 seen key waiting _ hv ih => exact skipped seen key waiting (.inr hv) ih
  | case4 seen key waiting hs v hv _ ih => exact visited seen key waiting v hs hv ih

theorem mem_walk_iff {order : WalkOrder} {seen agenda : List Text} {key : Text} {w : α} :
    (key, w) ∈ walk order leadsTo table seen agenda ↔
      Reaches leadsTo table seen agenda key ∧ table.get? key = some w := by
  induction seen, agenda using walkInduction order leadsTo table with
  | done seen =>
    rw [walk_nil]
    constructor
    · simp
    · rintro ⟨h, -⟩
      exact absurd h Reaches.nil
  | skipped seen k waiting hk ih =>
    rw [walk_skipped order hk, ih]
    have hskip : Reaches leadsTo table seen waiting key ↔ Reaches leadsTo table seen (k :: waiting) key :=
      ⟨.mono fun _ => List.mem_cons_of_mem k, .of_skipped hk⟩
    rw [hskip]
  | visited seen k waiting v hs hv ih =>
    rw [walk_visited order hs hv, List.mem_cons, ih]
    -- either order adds the same keys to the agenda, which is all that matters here
    constructor
    · rintro (heq | ⟨h, hw⟩)
      · cases heq
        exact ⟨.start List.mem_cons_self hs hv, hv⟩
      · exact ⟨h.of_visited hs hv fun j hj => WalkOrder.mem_agenda.1 hj, hw⟩
    · rintro ⟨h, hw⟩
      rcases h.eq_or_behind hv fun j hj => WalkOrder.mem_agenda.2 hj with rfl | h
      · obtain rfl : v = w := by simpa [hv] using hw
        exact .inl rfl
      · exact .inr ⟨h, hw⟩

/-- A walk is the same over every table that has the same entries for the keys that are reached, and none that are
new. -/
theorem walk_congr {order : WalkOrder} {table' : Table α} {seen agenda : List Text}
    (hsame : ∀ key, Reaches leadsTo table seen agenda key → table'.get? key = table.get? key)
    (hnone : ∀ key, table.get? key = none → table'.get? key = none) :
    walk order leadsTo table' seen agenda = walk order leadsTo table seen agenda := by
  induction seen, agenda using walkInduction order leadsTo table with
  | done seen => rw [walk_nil, walk_nil]
  | skipped seen key waiting hk ih =>
    rw [walk_skipped order hk, walk_skipped order (hk.imp_right (hnone key))]
    exact ih fun k hr => hsame k (hr.mono fun _ => List.mem_cons_of_mem key)
  | visited seen key waiting v hs hv ih =>
    have hv' : table'.get? key = some v := (hsame key (.start List.mem_cons_self hs hv)).trans hv
    rw [walk_visited order hs hv, walk_visited order hs hv']
    rw [ih fun k hr => hsame k (hr.of_visited hs hv fun _ hj => WalkOrder.mem_agenda.1 hj)]

theorem unseen_of_mem_walk {order : WalkOrder} {seen agenda : List Text} {e : Text × α}
    (h : e ∈ walk order leadsTo table seen agenda) : e.1 ∉ seen :=
  (mem_walk_iff.1 h).1.unseen

theorem nodup_walk {order : WalkOrder} {seen agenda : List Text} :
    ((walk order leadsTo table seen agenda).map Prod.fst).Nodup := by
  induction seen, agenda using walkInduction order leadsTo table with
  | done seen => simp [walk_nil]
  | skipped seen k waiting hk ih => rwa [walk_skipped order hk]
  | visited seen k waiting v hs hv ih =>
    rw [walk_visited order hs hv, List.map_cons, List.nodup_cons]
    refine ⟨?_, ih⟩
    intro hk
    obtain ⟨e, he, rfl⟩ := List.mem_map.1 hk
    exact unseen_of_mem_walk he List.mem_cons_self

/-! ## Depth first -/

/-- What depth-first visits from an agenda list: behind a visited key comes all that is first reached from it,
and then what is first reached from the rest of the agenda. -/
inductive DepthFirst (leadsTo : α → List Text) (table : Table α) :
    (seen agenda : List Text) → List (Text × α) → Prop
  | done {seen : List Text} : DepthFirst leadsTo table seen [] []
  | skipped {seen waiting : List Text} {key : Text} {found : List (Text × α)}
    (hk : key ∈ seen ∨ table.get? key = none) (h : DepthFirst leadsTo table seen waiting found) :
    DepthFirst leadsTo table seen (key :: waiting) found
  | visited {seen waiting : List Text} {key : Text} {v : α} {below found : List (Text × α)}
    (hs : key ∉ seen) (hv : table.get? key = some v)
    (hb : DepthFirst leadsTo table (key :: seen) (leadsTo v) below)
    (h : DepthFirst leadsTo table ((below.map Prod.fst).reverse ++ key :: seen) waiting found) :
    DepthFirst leadsTo table seen (key :: waiting) ((key, v) :: below ++ found)

namespace DepthFirst

variable {seen agenda : List Text} {found : List (Text × α)}

/-- The visits from an agenda fall into those from its first part and those that are left for the rest. -/
theorem split {rest : List Text} (h : DepthFirst leadsTo table seen (agenda ++ rest) found) :
    ∃ first last, found = first ++ last ∧ DepthFirst leadsTo table seen agenda first ∧
      DepthFirst leadsTo table ((first.map Prod.fst).reverse ++ seen) rest last := by
  induction agenda generalizing seen found with
  | nil => exact ⟨[], found, rfl, .done, h⟩
  | cons key agenda ih =>
    cases h with
    | skipped hk h =>
      obtain ⟨first, last, rfl, hfirst, hlast⟩ := ih h
      exact ⟨first, last, rfl, .skipped hk hfirst, hlast⟩
    | @visited _ _ _ v below found hs hv hb h =>
      obtain ⟨first, last, rfl, hfirst, hlast⟩ := ih h
      refine ⟨(key, v) :: below ++ first, last, by simp, .visited hs hv hb hfirst, ?_⟩
      simpa using hlast

theorem unique {other : List (Text × α)} (h : DepthFirst leadsTo table seen agenda found)
    (h' : DepthFirst leadsTo table seen agenda other) : found = other := by
  induction h generalizing other with
  | done =>
    cases h'
    rfl
  | skipped hk _ ih =>
    cases h' with
    | skipped _ h' => exact ih h'
    | visited hs hv _ _ =>
      rcases hk with hk | hk
      · exact absurd hk hs
      · simp [hk] at hv
  | visited hs hv _ _ ihb ih =>
    cases h' with
    | skipped hk _ =>
      rcases hk with hk | hk
      · exact absurd hk hs
      · simp [hk] at hv
    | visited _ hv' hb' h' =>
      obtain rfl := Option.some.inj (hv.symm.trans hv')
      obtain rfl := ihb hb'
      rw [ih h']

end DepthFirst

theorem depthFirst_iff {seen agenda : List Text} {found : List (Text × α)} :
    DepthFirst leadsTo table seen agenda found ↔ found = walk .depthFirst leadsTo table seen agenda := by
  have hwalk : DepthFirst leadsTo table seen agenda (walk .depthFirst leadsTo table seen agenda) := by
    induction seen, agenda using walkInduction .depthFirst leadsTo table with
    | done seen =>
      rw [walk_nil]
      exact .done
    | skipped seen key waiting hk ih =>
      rw [walk_skipped _ hk]
      exact .skipped hk ih
    | visited seen key waiting v hs hv ih =>
      rw [walk_visited _ hs hv]
      -- the walk has one agenda; its visits are cut where the keys that the new entry leads to end
      obtain ⟨below, rest, heq, hb, hr⟩ := ih.split
      rw [heq]
      exact .visited hs hv hb hr
  constructor
  · exact fun h => h.unique hwalk
  · rintro rfl
    exact hwalk

end Walks

/-! ## Definitions -/

/-- The definitions that references lead to, by name, with all that these mention. -/
inductive Reached (definitions : Table Schema) (refs : List Text) : Text → Schema → Prop
  | root {ref : Text} {s : Schema} (hr : ref ∈ refs)
    (hs : definitions.get? (Schema.refName ref) = some s) : Reached definitions refs (Schema.refName ref) s
  | step {name ref : Text} {s t : Schema} (h : Reached definitions refs name s) (hm : s.Mentions ref)
    (ht : definitions.get? (Schema.refName ref) = some t) : Reached definitions refs (Schema.refName ref) t

section Definitions

variable {displayName : Text → Text} {definitions : Table Schema} {refs : List Text}

private theorem reached_iff {name : Text} {s : Schema} :
    Reached definitions refs name s ↔
      Reaches Schema.refNames definitions [] (refs.map Schema.refName) name ∧
        definitions.get? name = some s := by
  constructor
  · intro h
    induction h with
    | root hr hs => exact ⟨.start (List.mem_map_of_mem hr) (by simp) hs, hs⟩
    | step _ hm ht ih =>
      have hname := Schema.mem_refNames_iff.2 ⟨_, hm, rfl⟩
      exact ⟨.step ih.1 ih.2 hname (by simp) ht, ht⟩
  · rintro ⟨h, hs⟩
    induction h generalizing s with
    | start ha _ _ =>
      obtain ⟨ref, hr, rfl⟩ := List.mem_map.1 ha
      exact .root hr hs
    | step _ hv hn _ _ ih =>
      obtain ⟨ref, hm, rfl⟩ := Schema.mem_refNames_iff.1 hn
      exact .step (ih hv) hm hs

theorem Reached.get?_eq {name : Text} {s : Schema} (h : Reached definitions refs name s) :
    definitions.get? name = some s := (reached_iff.1 h).2

/-- The closure holds the types of the definitions that are reached. -/
theorem mem_closure_iff {t : NamedType} :
    t ∈ closure displayName definitions refs ↔
      ∃ name s, Reached definitions refs name s ∧ t = namedType displayName name s := by
  simp only [closure, List.mem_map, Prod.exists, mem_walk_iff, reached_iff]
  constructor
  · rintro ⟨name, s, h, rfl⟩
    exact ⟨name, s, h, rfl⟩
  · rintro ⟨name, s, h, rfl⟩
    exact ⟨name, s, h, rfl⟩

/-- A closure is the same over every table that has the same definitions where it leads, and none that are new. -/
theorem closure_congr {definitions' : Table Schema}
    (hsame : ∀ name s, Reached definitions refs name s → definitions'.get? name = some s)
    (hnone : ∀ name, definitions.get? name = none → definitions'.get? name = none) :
    closure displayName definitions' refs = closure displayName definitions refs := by
  unfold closure
  rw [walk_congr (fun name hr => ?_) hnone]
  have hmem : ∃ s, definitions.get? name = some s := by
    cases hr with
    | start _ _ hv => exact ⟨_, hv⟩
    | step _ _ _ _ hw => exact ⟨_, hw⟩
  obtain ⟨s, hs⟩ := hmem
  rw [hs, hsame name s (reached_iff.2 ⟨hr, hs⟩)]

theorem nodup_closure : ((closure displayName definitions refs).map NamedType.definition).Nodup := by
  have hkeys : (closure displayName definitions refs).map NamedType.definition =
      (walk .breadthFirst Schema.refNames definitions [] (refs.map Schema.refName)).map Prod.fst := by
    rw [closure, List.map_map]
    rfl
  rw [hkeys]
  exact nodup_walk

theorem Reached.mono {others : List Text} (h : ∀ ref ∈ refs, ref ∈ others) {name : Text} {s : Schema}
    (hr : Reached definitions refs name s) : Reached definitions others name s := by
  induction hr with
  | root hr hs => exact .root (h _ hr) hs
  | step _ hm ht ih => exact .step ih hm ht

end Definitions

/-! ## The types of a group -/

/-- The types that names lead to inside a list of types. -/
inductive ReachedType (types : List NamedType) (roots : List Text) : NamedType → Prop
  | root {t : NamedType} (ht : t ∈ types) (hr : t.definition ∈ roots) : ReachedType types roots t
  | step {t u : NamedType} {ref : Text} (h : ReachedType types roots t) (hm : t.schema.Mentions ref)
    (hu : u ∈ types) (hd : u.definition = Schema.refName ref) : ReachedType types roots u

theorem ReachedType.mem {types : List NamedType} {roots : List Text} {t : NamedType}
    (h : ReachedType types roots t) : t ∈ types := by
  cases h with
  | root ht _ => exact ht
  | step _ _ hu _ => exact hu

theorem ReachedType.mono {types : List NamedType} {roots others : List Text} {t : NamedType}
    (h : ∀ name ∈ roots, name ∈ others) (ht : ReachedType types roots t) : ReachedType types others t := by
  induction ht with
  | root ht hr => exact .root ht (h _ hr)
  | step _ hm hu hd ih => exact .step ih hm hu hd

section GroupTypes

variable {operations : List Operation} {types : List NamedType}

/-- The types under the names of their definitions. -/
def registry (types : List NamedType) : Table NamedType := types.map fun t => (t.definition, t)

private theorem get?_registry (h : (types.map NamedType.definition).Nodup) {name : Text} {t : NamedType} :
    (registry types).get? name = some t ↔ t ∈ types ∧ t.definition = name := by
  have hkeys : ((registry types).keys).Nodup := by
    simpa [registry, Table.keys, List.map_map, Function.comp_def] using h
  constructor
  · intro ht
    obtain ⟨u, hu, heq⟩ := List.mem_map.1 (Table.mem_of_get? ht)
    cases heq
    exact ⟨hu, rfl⟩
  · rintro ⟨ht, rfl⟩
    exact Table.get?_of_mem hkeys (List.mem_map.2 ⟨t, ht, rfl⟩)

private theorem groupTypes_eq (h : (types.map NamedType.definition).Nodup) :
    groupTypes operations types =
      (walk .depthFirst (fun t => t.schema.refNames) (registry types) []
        (operations.flatMap Operation.typeRefs)).map Prod.snd := by
  have hentries : Table.ofEntries (types.map fun t => (t.definition, t)) = registry types := by
    apply Table.ofEntries_of_nodup
    simpa [List.map_map, Function.comp_def] using h
  rw [groupTypes, hentries]

private theorem reachedType_iff (h : (types.map NamedType.definition).Nodup) {roots : List Text}
    {t : NamedType} :
    ReachedType types roots t ↔
      Reaches (fun t => t.schema.refNames) (registry types) [] roots t.definition ∧ t ∈ types := by
  constructor
  · intro ht
    induction ht with
    | root ht hr => exact ⟨.start hr (by simp) ((get?_registry h).2 ⟨ht, rfl⟩), ht⟩
    | @step t u ref _ hm hu hd ih =>
      have hname : u.definition ∈ t.schema.refNames := Schema.mem_refNames_iff.2 ⟨ref, hm, hd.symm⟩
      have hlisted {v : NamedType} (hv : v ∈ types) : (registry types).get? v.definition = some v :=
        (get?_registry h).2 ⟨hv, rfl⟩
      exact ⟨.step ih.1 (hlisted ih.2) hname (by simp) (hlisted hu), hu⟩
  · rintro ⟨hr, ht⟩
    generalize hname : t.definition = name at hr
    induction hr generalizing t with
    | start ha _ _ => exact .root ht (hname ▸ ha)
    | @step key next v w _ hv hn _ _ ih =>
      obtain ⟨hmem, hkey⟩ := (get?_registry h).1 hv
      obtain ⟨ref, hm, hd⟩ := Schema.mem_refNames_iff.1 hn
      exact .step (ih hmem hkey) hm ht (hname.trans hd.symm)

theorem mem_groupTypes_iff (h : (types.map NamedType.definition).Nodup) {t : NamedType} :
    t ∈ groupTypes operations types ↔ ReachedType types (operations.flatMap Operation.typeRefs) t := by
  rw [groupTypes_eq h, reachedType_iff h]
  simp only [List.mem_map, Prod.exists, exists_eq_right, mem_walk_iff, get?_registry h]
  constructor
  · rintro ⟨name, hr, ht, rfl⟩
    exact ⟨hr, ht⟩
  · rintro ⟨hr, ht⟩
    exact ⟨t.definition, hr, ht, rfl⟩

/-- The types of a group are listed in the order in which depth-first visits them. -/
theorem depthFirst_groupTypes (h : (types.map NamedType.definition).Nodup) :
    DepthFirst (fun t => t.schema.refNames) (registry types) [] (operations.flatMap Operation.typeRefs)
      (registry (groupTypes operations types)) := by
  rw [depthFirst_iff, groupTypes_eq h, registry, List.map_map]
  refine (List.map_congr_left ?_).trans (List.map_id _)
  rintro ⟨name, t⟩ hmem
  obtain ⟨-, rfl⟩ := (get?_registry h).1 (mem_walk_iff.1 hmem).2
  rfl

theorem nodup_groupTypes (h : (types.map NamedType.definition).Nodup) :
    ((groupTypes operations types).map NamedType.definition).Nodup := by
  have hkeys : (groupTypes operations types).map NamedType.definition =
      (registry (groupTypes operations types)).map Prod.fst := by
    rw [registry, List.map_map]
    rfl
  rw [hkeys, depthFirst_iff.1 (depthFirst_groupTypes h)]
  exact nodup_walk

end GroupTypes

/-! ## Both walks -/

variable {displayName : Text → Text} {definitions : Table Schema} {refs roots : List Text}

theorem mem_closure_congr (h : ∀ ref, ref ∈ roots ↔ ref ∈ refs) (t : NamedType) :
    t ∈ closure displayName definitions roots ↔ t ∈ closure displayName definitions refs := by
  rw [mem_closure_iff, mem_closure_iff]
  constructor
  · rintro ⟨name, s, hs, rfl⟩
    exact ⟨name, s, hs.mono fun ref => (h ref).1, rfl⟩
  · rintro ⟨name, s, hs, rfl⟩
    exact ⟨name, s, hs.mono fun ref => (h ref).2, rfl⟩

/-- Among the types of a closure, some of its references lead to just what their own closure holds. -/
theorem reachedType_closure_iff (h : ∀ ref ∈ roots, ref ∈ refs) {t : NamedType} :
    ReachedType (closure displayName definitions refs) (roots.map Schema.refName) t ↔
      t ∈ closure displayName definitions roots := by
  constructor
  · intro ht
    rw [mem_closure_iff]
    induction ht with
    | root ht hr =>
      obtain ⟨name, s, hs, rfl⟩ := mem_closure_iff.1 ht
      obtain ⟨ref, href, heq⟩ := List.mem_map.1 hr
      obtain rfl : Schema.refName ref = name := heq
      exact ⟨_, s, .root href hs.get?_eq, rfl⟩
    | step _ hm hu hd ih =>
      obtain ⟨name, s, hs, rfl⟩ := ih
      obtain ⟨next, w, hw, rfl⟩ := mem_closure_iff.1 hu
      obtain rfl : next = Schema.refName _ := hd
      exact ⟨_, w, .step hs hm hw.get?_eq, rfl⟩
  · intro ht
    obtain ⟨name, s, hs, rfl⟩ := mem_closure_iff.1 ht
    have hmem {name : Text} {s : Schema} (hs : Reached definitions roots name s) :
        namedType displayName name s ∈ closure displayName definitions refs :=
      mem_closure_iff.2 ⟨name, s, hs.mono h, rfl⟩
    induction hs with
    | root hr hs => exact .root (hmem (.root hr hs)) (List.mem_map_of_mem hr)
    | step hs hm ht' ih =>
      exact .step (ih (mem_closure_iff.2 ⟨_, _, hs, rfl⟩)) hm (hmem (.step hs hm ht')) rfl

/-- The closure lists each definition that is reached once and no other, whatever the order of the references
and however often they are given. The types of a group are those that its signatures lead to, each once, in
the order of the first depth-first visits. Both ways the same types of a closure are reached. -/
theorem reachability_exact (displayName : Text → Text) (definitions : Table Schema) (refs : List Text) :
    let reached := closure displayName definitions refs
    (reached.map NamedType.definition).Nodup ∧
      (∀ t, t ∈ reached ↔
        ∃ name s, Reached definitions refs name s ∧ t = namedType displayName name s) ∧
      (∀ others, (∀ ref, ref ∈ others ↔ ref ∈ refs) →
        ∀ t, t ∈ closure displayName definitions others ↔ t ∈ reached) ∧
      (∀ operations types, (types.map NamedType.definition).Nodup →
        let roots := operations.flatMap Operation.typeRefs
        let selected := groupTypes operations types
        (selected.map NamedType.definition).Nodup ∧
          DepthFirst (fun t => t.schema.refNames) (registry types) [] roots (registry selected) ∧
          ∀ t, t ∈ selected ↔ ReachedType types roots t) ∧
      ∀ operations roots, (∀ ref ∈ roots, ref ∈ refs) →
        (∀ name, name ∈ operations.flatMap Operation.typeRefs ↔ name ∈ roots.map Schema.refName) →
          ∀ t, t ∈ groupTypes operations reached ↔ t ∈ closure displayName definitions roots := by
  intro reached
  refine ⟨nodup_closure, fun t => mem_closure_iff, fun others h => mem_closure_congr h, ?_, ?_⟩
  · intro operations types h
    exact ⟨nodup_groupTypes h, depthFirst_groupTypes h, fun t => mem_groupTypes_iff h⟩
  · intro operations roots h hroots t
    rw [mem_groupTypes_iff nodup_closure, ← reachedType_closure_iff h]
    exact ⟨.mono fun name => (hroots name).1, .mono fun name => (hroots name).2⟩

/-- Two definitions that mention each other, and one that is missing. -/
theorem reachability_of_cycle :
    let link (name : Text) : Schema := { Schema.empty with ref := some ("#/definitions/" ++ name) }
    let a : Schema := { Schema.empty with properties := [("next", link "b"), ("self", link "a")] }
    let b : Schema := { Schema.empty with items := some (link "a"), allOf := [link "gone"] }
    let definitions : Table Schema := [("a", a), ("b", b), ("c", link "a")]
    let toA : Text := "#/definitions/a"
    let toGone : Text := "#/definitions/gone"
    let types := [namedType id "a" a, namedType id "b" b, namedType id "c" (link "a")]
    (∀ t, t ∈ closure id definitions [toA, toGone] ↔ t ∈ closure id definitions [toGone, toA, toA]) ∧
      registry (groupTypes [{ typeRefs := ["gone", "b"] }] types) =
        registry [namedType id "b" b, namedType id "a" a] ∧
      ∀ t, t ∈ groupTypes [{ typeRefs := ["a"] }] (closure id definitions [toGone, toA, toA]) ↔
        t ∈ closure id definitions [toA] := by
  intro link a b definitions toA toGone types
  obtain ⟨-, -, hsame, hgroup, hboth⟩ := reachability_exact id definitions [toGone, toA, toA]
  refine ⟨hsame _ ?_, ?_, hboth _ _ ?_ ?_⟩
  · intro ref
    simp only [List.mem_cons, List.not_mem_nil, or_false, or_self]
    exact or_comm
  · have hvisits := (hgroup [{ typeRefs := ["gone", "b"] }] types (by decide)).2.1
    have hfromA : DepthFirst (fun t => t.schema.refNames) (registry types) ["b".toList] ["a", "gone"]
        (("a".toList, namedType id "a" a) :: [] ++ []) :=
      .visited (by decide) rfl (.skipped (.inl (by decide)) (.skipped (.inl (by decide)) .done))
        (.skipped (.inr rfl) .done)
    have hfromB : DepthFirst (fun t => t.schema.refNames) (registry types) [] ["gone", "b"]
        (("b".toList, namedType id "b" b) :: registry [namedType id "a" a] ++ []) :=
      .skipped (.inr rfl) (.visited (by decide) rfl hfromA .done)
    exact hvisits.unique hfromB
  · intro ref h
    rw [List.mem_singleton.1 h]
    exact List.mem_cons_of_mem _ List.mem_cons_self
  · intro name
    have hroots : [{ typeRefs := ["a".toList] : Operation }].flatMap Operation.typeRefs =
        [toA].map Schema.refName := by decide
    rw [hroots]

end ClientGen
