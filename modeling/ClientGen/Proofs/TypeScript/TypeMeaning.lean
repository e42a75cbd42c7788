import ClientGen.Proofs.TypeScript.TypeExpr
import ClientGen.Proofs.TypeScript.TypeReader
/-!
# What type expressions are read as

The text of a type expression is read as a type, and this type is the one that is meant exactly if no parentheses are
missing: behind no union or intersection stands `[]`, and no union stands in an intersection.
-/

namespace ClientGen

open Text TypeTree TypeReader

/-- A value of an enumeration that has a literal: a truth value, a number, `null` or a text on one line. -/
inductive IsLiteralValue : Value → Prop
  | null : IsLiteralValue (.scalar .null)
  | bool (b : Bool) : IsLiteralValue (.scalar (.bool b))
  | int (n : Int) : IsLiteralValue (.scalar (.int n))
  | float (x : Binary64) : IsLiteralValue (.scalar (.float x))
  | text {t : Text} (h : '\n' ∉ t) : IsLiteralValue (.scalar (.text t))

def TypeTree.ofLiteral : Value → TypeTree
  | .scalar (.text t) => .quoted t
  | .scalar (.bool b) => .word (if b then "true" else "false")
  | .scalar .null => .word "null"
  | v => .word v.toText

theorem TypeTree.isAtom_ofLiteral (v : Value) : (ofLiteral v).isAtom = true := by
  unfold ofLiteral
  split <;> rfl

namespace TypeExpr

mutual

/-- The type that is meant. -/
def tree : TypeExpr → TypeTree
  | .keyword k => .word k.render
  | .named name => .word name
  | .literals values => combine .union (values.map ofLiteral)
  | .intersection members => combine .meet (treeAll members)
  | .array item => .array (tree item)
  | .grouped inner => tree inner
  | .object members => .object (treeMembers members)
  | .record values => TypeTree.record (tree values)
termination_by structural e => e

def treeAll : List TypeExpr → List TypeTree
  | [] => []
  | e :: es => tree e :: treeAll es
termination_by structural es => es

def treeMembers : List (Member TypeExpr) → List (Member TypeTree)
  | [] => []
  | ⟨name, isOptional, type⟩ :: ms => ⟨name, isOptional, tree type⟩ :: treeMembers ms
termination_by structural ms => ms

end

mutual

/-- The operands that the text of a type expression has outside brackets. -/
def row : TypeExpr → Row
  | .keyword k => [some (.word k.render)]
  | .named name => [some (.word name)]
  | .literals values => (gap .union).intercalate ((values.map ofLiteral).map fun t => [some t])
  | .intersection members => (gap .meet).intercalate (rowAll members)
  | .array item => indexed (row item)
  | .grouped inner => [some (ofRow (row inner))]
  | .object members => [some (.object (readMembers members))]
  | .record values => [some (TypeTree.record (ofRow (row values)))]
termination_by structural e => e

def rowAll : List TypeExpr → List Row
  | [] => []
  | e :: es => row e :: rowAll es
termination_by structural es => es

def readMembers : List (Member TypeExpr) → List (Member TypeTree)
  | [] => []
  | ⟨name, isOptional, type⟩ :: ms => ⟨name, isOptional, ofRow (row type)⟩ :: readMembers ms
termination_by structural ms => ms

end

theorem treeAll_eq_map (es : List TypeExpr) : treeAll es = es.map tree := by
  induction es with
  | nil => rfl
  | cons e es ih => rw [treeAll, ih, List.map_cons]

theorem treeMembers_eq_map (ms : List (Member TypeExpr)) :
    treeMembers ms = ms.map fun m => ⟨m.name, m.isOptional, m.type.tree⟩ := by
  induction ms with
  | nil => rfl
  | cons m ms ih => rw [treeMembers, ih, List.map_cons]

theorem rowAll_eq_map (es : List TypeExpr) : rowAll es = es.map row := by
  induction es with
  | nil => rfl
  | cons e es ih => rw [rowAll, ih, List.map_cons]

theorem readMembers_eq_map (ms : List (Member TypeExpr)) :
    readMembers ms = ms.map fun m => ⟨m.name, m.isOptional, ofRow m.type.row⟩ := by
  induction ms with
  | nil => rfl
  | cons m ms ih => rw [readMembers, ih, List.map_cons]

/-- A type expression without parentheses whose names are identifiers, whose literals have one and stand on one line,
and whose lists are not empty. -/
inductive IsReadable : TypeExpr → Prop
  | keyword (k : Keyword) : IsReadable (.keyword k)
  | named {n : Text} (hn : isIdentifier n = true) : IsReadable (.named n)
  | literals {vs : List Value} (hne : vs ≠ []) (hv : ∀ v ∈ vs, IsLiteralValue v) : IsReadable (.literals vs)
  | intersection {es : List TypeExpr} (hne : es ≠ []) (he : ∀ e ∈ es, IsReadable e) : IsReadable (.intersection es)
  | array {e : TypeExpr} (he : IsReadable e) : IsReadable (.array e)
  | object {ms : List (Member TypeExpr)} (hn : ∀ m ∈ ms, '\n' ∉ m.name) (hm : ∀ m ∈ ms, IsReadable m.type) :
      IsReadable (.object ms)
  | record {e : TypeExpr} (he : IsReadable e) : IsReadable (.record e)

variable {e : TypeExpr}

/-! ## Texts -/

theorem reads_keyword (k : Keyword) : Reads k.render [some (.word k.render)] := by
  cases k <;> exact .word ⟨by decide, by decide⟩

theorem reads_renderLiteral {v : Value} (h : IsLiteralValue v) : Reads (renderLiteral v) [some (ofLiteral v)] := by
  cases h with
  | null => exact .word ⟨by decide, by decide⟩
  | bool b => cases b <;> exact .word ⟨by decide, by decide⟩
  | int n => exact .word (IsNumberWord.ofInt n)
  | float x => exact .word (IsNumberWord.float x)
  | text h => exact .literal h

theorem reads_renderLiterals {vs : List Value} (hne : vs ≠ []) (hv : ∀ v ∈ vs, IsLiteralValue v) :
    Reads (renderLiterals vs) (TypeExpr.literals vs).row := by
  rw [row, List.map_map]
  exact .join .union hne fun v hm => reads_renderLiteral (hv v hm)

theorem IsReadable.exists_row_concat (h : e.IsReadable) : ∃ r t, e.row = r ++ [some t] := by
  induction h with
  | keyword | named | object | record => exact ⟨[], _, rfl⟩
  | @literals vs hne hv =>
    rw [row]
    refine exists_concat_intercalate (by simpa using hne) fun r hr => ?_
    obtain ⟨t, -, rfl⟩ := List.mem_map.1 hr
    exact ⟨[], t, rfl⟩
  | @intersection es hne he ih =>
    rw [row, rowAll_eq_map]
    refine exists_concat_intercalate (by simpa using hne) fun r hr => ?_
    obtain ⟨e, hm, rfl⟩ := List.mem_map.1 hr
    exact ih e hm
  | array he ih =>
    obtain ⟨r, t, hrow⟩ := ih
    rw [row, hrow, indexed_concat]
    exact ⟨r, _, rfl⟩

theorem IsReadable.reads (h : e.IsReadable) : Reads e.render e.row := by
  induction h with
  | keyword k => exact reads_keyword k
  | named hn => exact .word (.of_isIdentifier hn)
  | literals hne hv => exact reads_renderLiterals hne hv
  | intersection hne he ih =>
    have hjoin := Reads.join .meet hne ih
    rw [← renderAll_eq_map, ← rowAll_eq_map] at hjoin
    exact hjoin
  | array he ih => exact ih.array he.exists_row_concat
  | @object ms hn hm ih =>
    have hobject := Reads.object fun m hmem => ReadsMember.of_reads (hn m hmem) (ih m hmem) m.isOptional
    rw [← renderMembers_eq_map, ← readMembers_eq_map] at hobject
    exact hobject
  | record he ih => exact ih.record

/-! ## Parentheses -/

/-- A type expression in which no parentheses are missing: the items of an array are neither a union nor an
intersection, and no member of an intersection of several is a union. -/
inductive NeedsNoParentheses : TypeExpr → Prop
  | keyword (k : Keyword) : NeedsNoParentheses (.keyword k)
  | named (n : Text) : NeedsNoParentheses (.named n)
  | literals (vs : List Value) : NeedsNoParentheses (.literals vs)
  | intersection {es : List TypeExpr} (he : ∀ e ∈ es, NeedsNoParentheses e)
      (hu : es.length = 1 ∨ ∀ e ∈ es, e.tree.isUnion = false) : NeedsNoParentheses (.intersection es)
  | array {e : TypeExpr} (he : NeedsNoParentheses e) (ha : e.tree.isAtom = true) : NeedsNoParentheses (.array e)
  | object {ms : List (Member TypeExpr)} (hm : ∀ m ∈ ms, NeedsNoParentheses m.type) : NeedsNoParentheses (.object ms)
  | record {e : TypeExpr} (he : NeedsNoParentheses e) : NeedsNoParentheses (.record e)

section Lists

variable {α β : Type} {xs : List α} {f g : α → List β}

private theorem length_flatMap_le (h : ∀ x ∈ xs, (f x).length ≤ (g x).length) :
    (xs.flatMap f).length ≤ (xs.flatMap g).length := by
  induction xs with
  | nil => exact Nat.le_refl _
  | cons x xs ih =>
    have hx := h x List.mem_cons_self
    have hrest := ih fun x hx => h x (List.mem_cons_of_mem _ hx)
    rw [List.flatMap_cons, List.flatMap_cons, List.length_append, List.length_append]
    omega

/-- Lists that are equal when they are put together are equal one by one if none of the first ones is longer. -/
private theorem eq_of_flatMap_eq (h : ∀ x ∈ xs, (f x).length ≤ (g x).length) (heq : xs.flatMap f = xs.flatMap g) :
    ∀ x ∈ xs, f x = g x := by
  induction xs with
  | nil => simp
  | cons x xs ih =>
    have hrest : ∀ x ∈ xs, (f x).length ≤ (g x).length := fun x hx => h x (List.mem_cons_of_mem _ hx)
    rw [List.flatMap_cons, List.flatMap_cons] at heq
    have hlength : (f x).length = (g x).length := by
      have htotal := congrArg List.length heq
      rw [List.length_append, List.length_append] at htotal
      have hx := h x List.mem_cons_self
      have hrest := length_flatMap_le hrest
      omega
    obtain ⟨hx, htail⟩ := List.append_inj heq hlength
    intro y hy
    rcases List.mem_cons.1 hy with rfl | hy
    · exact hx
    · exact ih hrest htail y hy

private theorem reduceOption_flatMap (f : α → List (Option β)) (xs : List α) :
    (xs.flatMap f).reduceOption = xs.flatMap fun x => (f x).reduceOption := by
  induction xs with
  | nil => rfl
  | cons x xs ih => rw [List.flatMap_cons, List.flatMap_cons, List.reduceOption_append, ih]

end Lists

namespace IsReadable

theorem isAtomic_row (h : e.IsReadable) : IsAtomic e.row := by
  have hone {t : TypeTree} (ht : t.isAtom = true) : IsAtomic [some t] := by
    intro u hu
    obtain rfl : u = t := by simpa using hu
    exact ht
  induction h with
  | keyword | named | object | record => exact hone rfl
  | literals hne hv =>
    rw [row]
    refine isAtomic_intercalate fun r hr => ?_
    obtain ⟨t, ht, rfl⟩ := List.mem_map.1 hr
    obtain ⟨v, -, rfl⟩ := List.mem_map.1 ht
    exact hone (isAtom_ofLiteral v)
  | intersection hne he ih =>
    rw [row, rowAll_eq_map]
    refine isAtomic_intercalate fun r hr => ?_
    obtain ⟨e, hm, rfl⟩ := List.mem_map.1 hr
    exact ih e hm
  | array he ih =>
    obtain ⟨r, t, hrow⟩ := he.exists_row_concat
    rw [row, hrow, indexed_concat]
    rw [hrow] at ih
    intro u hu
    rcases List.mem_append.1 hu with hu | hu
    · exact ih u (List.mem_append_left _ hu)
    · obtain rfl : u = .array t := by simpa using hu
      rfl

theorem isNormal_tree (h : e.IsReadable) : e.tree.IsNormal := by
  induction h with
  | keyword | named | array | object | record => trivial
  | literals hne hv =>
    refine isNormal_combine (by simpa using hne) fun t ht => ?_
    obtain ⟨v, -, rfl⟩ := List.mem_map.1 ht
    exact isNormal_of_isAtom (isAtom_ofLiteral v)
  | intersection hne he ih =>
    rw [tree, treeAll_eq_map]
    refine isNormal_combine (by simpa using hne) fun t ht => ?_
    obtain ⟨e, hm, rfl⟩ := List.mem_map.1 ht
    exact ih e hm

end IsReadable

theorem row_intersection (es : List TypeExpr) : (TypeExpr.intersection es).row = es.flatMap row := by
  rw [row, intercalate_gap_meet, rowAll_eq_map, List.flatMap_def]

theorem tree_intersection (es : List TypeExpr) : (TypeExpr.intersection es).tree = combine .meet (es.map tree) := by
  rw [tree, treeAll_eq_map]

namespace IsReadable

theorem length_parts_tree_le (h : e.IsReadable) : (e.tree.parts .meet).length ≤ e.row.reduceOption.length := by
  have hone {e : TypeExpr} (h : e.IsReadable) (hp : e.tree.parts .meet = [e.tree]) :
      (e.tree.parts .meet).length ≤ e.row.reduceOption.length := by
    obtain ⟨r, t, hrow⟩ := h.exists_row_concat
    rw [hp, hrow, List.reduceOption_append, List.length_append]
    exact Nat.le_add_left 1 _
  induction h with
  | keyword | named | object | record => exact Nat.le_refl _
  | array he ih => exact hone he.array rfl
  | @literals vs hne hv =>
    refine hone (.literals hne hv) (parts_meet_combine_union fun t ht => ?_)
    obtain ⟨v, -, rfl⟩ := List.mem_map.1 ht
    exact isAtom_ofLiteral v
  | @intersection es hne he ih =>
    have hnormal : ∀ t ∈ es.map tree, t.IsNormal := by
      intro t ht
      obtain ⟨e, hm, rfl⟩ := List.mem_map.1 ht
      exact (he e hm).isNormal_tree
    rw [tree_intersection, row_intersection, parts_combine hnormal, List.flatMap_map, reduceOption_flatMap]
    exact length_flatMap_le ih

private theorem ofRow_intersection_singleton_iff (he : e.IsReadable) :
    ofRow (TypeExpr.intersection [e]).row = (TypeExpr.intersection [e]).tree ↔ ofRow e.row = e.tree := by
  rw [row_intersection, tree_intersection, List.flatMap_singleton, List.map_singleton,
    he.isNormal_tree.combine_singleton]

/-- Of an intersection of several nothing is missing if each member is read as it is meant and is no union. -/
private theorem ofRow_intersection_eq_iff {es : List TypeExpr} (he : ∀ e ∈ es, e.IsReadable) (h2 : 2 ≤ es.length) :
    ofRow (TypeExpr.intersection es).row = (TypeExpr.intersection es).tree ↔
      ∀ e ∈ es, ofRow e.row = e.tree ∧ e.tree.isUnion = false := by
  have hne : es ≠ [] := by
    rintro rfl
    simp at h2
  have hnormal : ∀ t ∈ es.map tree, t.IsNormal := by
    intro t ht
    obtain ⟨e, hm, rfl⟩ := List.mem_map.1 ht
    exact (he e hm).isNormal_tree
  have hmap : 2 ≤ (es.map tree).length := by simpa using h2
  have htree : (TypeExpr.intersection es).tree = .combined .meet (es.flatMap fun e => e.tree.parts .meet) := by
    rw [tree_intersection, combine_of_two_le hnormal hmap, List.flatMap_map]
  have hatomic := (IsReadable.intersection hne he).isAtomic_row
  rw [htree]
  by_cases hbar : none ∈ (TypeExpr.intersection es).row
  · -- a bar in a member is a bar of the whole
    have hunion := hatomic.isUnion_ofRow_of_mem hbar
    constructor
    · intro heq
      rw [heq] at hunion
      cases hunion
    · intro hall
      rw [row_intersection, List.mem_flatMap] at hbar
      obtain ⟨e, hm, hbar⟩ := hbar
      have hmember := (he e hm).isAtomic_row.isUnion_ofRow_of_mem hbar
      rw [(hall e hm).1, (hall e hm).2] at hmember
      cases hmember
  · have hnone : ∀ e ∈ es, none ∉ e.row := by
      rw [row_intersection, List.mem_flatMap] at hbar
      exact fun e hm hrow => hbar ⟨e, hm, hrow⟩
    have hle : ∀ e ∈ es, (e.tree.parts .meet).length ≤ e.row.reduceOption.length :=
      fun e hm => (he e hm).length_parts_tree_le
    have hlength : 2 ≤ (es.flatMap fun e => e.row.reduceOption).length := by
      have hparts := length_le_length_flatMap_parts .meet hnormal
      rw [List.flatMap_map] at hparts
      exact Nat.le_trans hmap (Nat.le_trans hparts (length_flatMap_le hle))
    rw [hatomic.ofRow_of_notMem hbar, row_intersection, reduceOption_flatMap, collapse_of_two_le hlength,
      TypeTree.combined.injEq]
    constructor
    · rintro ⟨-, heq⟩ e hm
      have hsame := eq_of_flatMap_eq hle heq.symm e hm
      have hread : ofRow e.row = e.tree := by
        rw [(he e hm).isAtomic_row.ofRow_of_notMem (hnone e hm), ← hsame, (he e hm).isNormal_tree.collapse_parts]
      exact ⟨hread, hread ▸ (he e hm).isAtomic_row.isUnion_ofRow_of_notMem (hnone e hm)⟩
    · intro hall
      refine ⟨rfl, List.flatMap_congr fun e hm => ?_⟩
      rw [← (hall e hm).1, (he e hm).isAtomic_row.parts_ofRow_of_notMem (hnone e hm)]

/-- A list is read as it is meant exactly if its members are, and are written as one type. -/
private theorem ofRow_array_eq_iff (he : e.IsReadable) :
    ofRow (TypeExpr.array e).row = (TypeExpr.array e).tree ↔ ofRow e.row = e.tree ∧ e.tree.isAtom = true := by
  obtain ⟨r, t, hrow⟩ := he.exists_row_concat
  have hatomic := he.isAtomic_row
  have hatomic' := (IsReadable.array he).isAtomic_row
  have hindexed : (TypeExpr.array e).row = r ++ [some (.array t)] := by rw [row, hrow, indexed_concat]
  rw [hrow] at hatomic ⊢
  rw [hindexed] at hatomic' ⊢
  have ht : t.isAtom = true := hatomic t (by simp)
  have hempty {u v : Option TypeTree} (hu : r ++ [u] = [v]) : r = [] := by
    have hlength := congrArg List.length hu
    simpa using hlength
  constructor
  · intro heq
    obtain ⟨u, hu⟩ := hatomic'.eq_singleton_of_isAtom_ofRow (by rw [heq]; rfl)
    obtain rfl := hempty hu
    have htree : t = e.tree := TypeTree.array.inj heq
    exact ⟨(ofRow_singleton ht).trans htree, htree ▸ ht⟩
  · rintro ⟨heq, ha⟩
    obtain ⟨u, hu⟩ := hatomic.eq_singleton_of_isAtom_ofRow (by rw [heq]; exact ha)
    obtain rfl := hempty hu
    exact congrArg TypeTree.array ((ofRow_singleton ht).symm.trans heq)

/-- What is read is what is meant exactly if no parentheses are missing. -/
theorem ofRow_row_eq_tree_iff (h : e.IsReadable) : ofRow e.row = e.tree ↔ e.NeedsNoParentheses := by
  induction h with
  | keyword k => exact ⟨fun _ => .keyword k, fun _ => rfl⟩
  | @named n hn => exact ⟨fun _ => .named n, fun _ => rfl⟩
  | @literals vs hne hv =>
    refine ⟨fun _ => .literals vs, fun _ => ofRow_intercalate_gap_union (by simpa using hne) fun t ht => ?_⟩
    obtain ⟨v, -, rfl⟩ := List.mem_map.1 ht
    exact isAtom_ofLiteral v
  | @intersection es hne he ih =>
    match es, hne with
    | [e], _ =>
      have hm := List.mem_singleton_self e
      rw [ofRow_intersection_singleton_iff (he e hm), ih e hm]
      constructor
      · intro hgood
        exact .intersection (fun f hf => List.mem_singleton.1 hf ▸ hgood) (.inl rfl)
      · intro hgood
        cases hgood with
        | intersection hall _ => exact hall e hm
    | e :: f :: es, _ =>
      rw [ofRow_intersection_eq_iff he (by simp)]
      constructor
      · intro hall
        exact .intersection (fun e hm => (ih e hm).1 (hall e hm).1) (.inr fun e hm => (hall e hm).2)
      · intro hgood e hm
        cases hgood with
        | intersection hall hu =>
          refine ⟨(ih e hm).2 (hall e hm), ?_⟩
          rcases hu with hone | hu
          · simp at hone
          · exact hu e hm
  | @array e he ih =>
    rw [ofRow_array_eq_iff he, ih]
    constructor
    · rintro ⟨hgood, ha⟩
      exact .array hgood ha
    · intro hgood
      cases hgood with
      | array hgood ha => exact ⟨hgood, ha⟩
  | @object ms hn hm ih =>
    change TypeTree.object (readMembers ms) = .object (treeMembers ms) ↔ _
    rw [TypeTree.object.injEq, readMembers_eq_map, treeMembers_eq_map, List.map_inj_left]
    constructor
    · intro heq
      refine .object fun m hmem => (ih m hmem).1 ?_
      exact congrArg Member.type (heq m hmem)
    · intro hgood m hmem
      cases hgood with
      | object hm => rw [(ih m hmem).2 (hm m hmem)]
  | @record e he ih =>
    change TypeTree.record (ofRow e.row) = .record e.tree ↔ _
    constructor
    · intro heq
      have harguments := (TypeTree.applied.inj heq).2
      refine .record (ih.1 ?_)
      exact (List.cons.inj (List.cons.inj harguments).2).1
    · intro hgood
      cases hgood with
      | record he => rw [ih.2 he]

end IsReadable

end TypeExpr

end ClientGen
