import ClientGen.TypeScript.TypeExpr
import Mathlib.Data.List.ReduceOption
/-!
# Types as trees

What a type expression says, whatever its text looks like. Operands in a row are taken together as the language does
it: those between two bars are an intersection, and these are the parts of a union.
-/

namespace ClientGen

/-- The operators between types. -/
inductive TypeOperator where
  | meet
  | union
deriving DecidableEq, Repr

/-- The sign of an operator, with blanks around it. -/
def TypeOperator.sign : TypeOperator → Text
  | .meet => " & "
  | .union => " | "

/-- What a type expression says. -/
inductive TypeTree where
  /-- A name, a keyword or a number. -/
  | word (t : Text)
  /-- A literal, without its quotes and escapes. -/
  | quoted (t : Text)
  | applied (head : Text) (arguments : List TypeTree)
  | object (members : List (Member TypeTree))
  | array (item : TypeTree)
  /-- The intersection or the union of types. -/
  | combined (op : TypeOperator) (parts : List TypeTree)

namespace TypeTree

variable {op : TypeOperator} {t : TypeTree} {ts : List TypeTree}

/-- The parts of a type as an operand of an operator. It has one part, itself, unless it is made with the operator. -/
def parts (op : TypeOperator) : TypeTree → List TypeTree
  | .combined op' ps => if op' = op then ps else [.combined op' ps]
  | t => [t]

/-- The parts under an operator; one part alone needs none. -/
def collapse (op : TypeOperator) : List TypeTree → TypeTree
  | [t] => t
  | ts => .combined op ts

/-- Types taken together. The operators are associative: a union in a union gives it its parts. -/
def combine (op : TypeOperator) (ts : List TypeTree) : TypeTree := collapse op (ts.flatMap (parts op))

/-- Whether a type is made without an operator. -/
def isAtom : TypeTree → Bool
  | .combined .. => false
  | _ => true

def isUnion : TypeTree → Bool
  | .combined .union _ => true
  | _ => false

/-- A type whose operator has at least two operands, if it is made with one. -/
def IsNormal : TypeTree → Prop
  | .combined _ ps => 2 ≤ ps.length
  | _ => True

theorem parts_of_isAtom (h : t.isAtom = true) : t.parts op = [t] := by
  cases t with
  | combined op' ps => cases h
  | _ => rfl

theorem isNormal_of_isAtom (h : t.isAtom = true) : t.IsNormal := by
  cases t with
  | combined op ps => cases h
  | _ => trivial

theorem isUnion_of_isAtom (h : t.isAtom = true) : t.isUnion = false := by
  cases t with
  | combined op ps => cases h
  | _ => rfl

theorem flatMap_parts_of_atoms (h : ∀ t ∈ ts, t.isAtom = true) : ts.flatMap (parts op) = ts := by
  induction ts with
  | nil => rfl
  | cons t ts ih =>
    rw [List.flatMap_cons, parts_of_isAtom (h t List.mem_cons_self), ih fun t ht => h t (List.mem_cons_of_mem _ ht)]
    rfl

theorem combine_of_atoms (h : ∀ t ∈ ts, t.isAtom = true) : combine op ts = collapse op ts := by
  rw [combine, flatMap_parts_of_atoms h]

theorem collapse_of_two_le (h : 2 ≤ ts.length) : collapse op ts = .combined op ts := by
  match ts, h with
  | _ :: _ :: _, _ => rfl

/-- The objects whose values are all of one type. -/
def record (values : TypeTree) : TypeTree := .applied "Record" [.word "string", values]

/-! ## Normal types -/

theorem IsNormal.parts_ne_nil (h : t.IsNormal) (op : TypeOperator) : t.parts op ≠ [] := by
  cases t with
  | combined op' ps =>
    rw [parts]
    split
    · rintro rfl
      simp [IsNormal] at h
    · simp
  | _ => simp [parts]

theorem IsNormal.collapse_parts (h : t.IsNormal) : collapse op (t.parts op) = t := by
  cases t with
  | combined op' ps =>
    rw [parts]
    split
    · next heq => rw [collapse_of_two_le h, heq]
    · rfl
  | _ => rfl

theorem IsNormal.combine_singleton (h : t.IsNormal) : combine op [t] = t := by
  rw [combine, List.flatMap_singleton, h.collapse_parts]

theorem length_le_length_flatMap_parts (op : TypeOperator) (h : ∀ t ∈ ts, t.IsNormal) :
    ts.length ≤ (ts.flatMap (parts op)).length := by
  induction ts with
  | nil => exact Nat.le_refl _
  | cons t ts ih =>
    have hpos := List.length_pos_iff.2 ((h t List.mem_cons_self).parts_ne_nil op)
    have hrest := ih fun t ht => h t (List.mem_cons_of_mem _ ht)
    rw [List.flatMap_cons, List.length_append, List.length_cons]
    omega

theorem combine_of_two_le (h : ∀ t ∈ ts, t.IsNormal) (h2 : 2 ≤ ts.length) :
    combine op ts = .combined op (ts.flatMap (parts op)) :=
  collapse_of_two_le (Nat.le_trans h2 (length_le_length_flatMap_parts op h))

theorem parts_combine (h : ∀ t ∈ ts, t.IsNormal) : (combine op ts).parts op = ts.flatMap (parts op) := by
  match ts, h with
  | [], _ => simp [combine, collapse, parts]
  | [t], h => rw [(h t List.mem_cons_self).combine_singleton, List.flatMap_singleton]
  | _ :: _ :: _, h => rw [combine_of_two_le h (by simp), parts, if_pos rfl]

theorem isNormal_combine (hne : ts ≠ []) (h : ∀ t ∈ ts, t.IsNormal) : (combine op ts).IsNormal := by
  match ts, hne, h with
  | [t], _, h =>
    rw [(h t List.mem_cons_self).combine_singleton]
    exact h t List.mem_cons_self
  | t :: u :: ts, _, h =>
    have h2 : 2 ≤ (t :: u :: ts).length := by simp
    rw [combine_of_two_le h h2]
    exact Nat.le_trans h2 (length_le_length_flatMap_parts op h)

theorem parts_meet_combine_union (h : ∀ t ∈ ts, t.isAtom = true) :
    (combine .union ts).parts .meet = [combine .union ts] := by
  rw [combine_of_atoms h]
  match ts, h with
  | [], _ => rfl
  | [t], h => exact parts_of_isAtom (h t List.mem_cons_self)
  | _ :: _ :: _, _ => rfl

/-! ## Rows of operands -/

/-- Operands in a row. `none` stands for a bar; operands without one between them are joined more tightly. -/
abbrev Row := List (Option TypeTree)

/-- What an operator adds to a row. -/
def gap : TypeOperator → Row
  | .meet => []
  | .union => [none]

/-- A row with one more operand at its beginning. -/
def extend (t : TypeTree) : List (List TypeTree) → List (List TypeTree)
  | [] => [[t]]
  | p :: ps => (t :: p) :: ps

/-- The operands of a row, cut at the bars. -/
def products : Row → List (List TypeTree)
  | [] => [[]]
  | none :: r => [] :: products r
  | some t :: r => extend t (products r)

/-- The type that a row stands for. -/
def ofRow (r : Row) : TypeTree := combine .union ((products r).map (combine .meet))

/-- The row with `[]` behind it, which belongs to the last operand. -/
def indexed : Row → Row
  | [] => []
  | [t?] => [t?.map .array]
  | t? :: u? :: r => t? :: indexed (u? :: r)

variable {r : Row}

theorem indexed_concat (r : Row) (t : TypeTree) : indexed (r ++ [some t]) = r ++ [some (.array t)] := by
  induction r with
  | nil => rfl
  | cons a r ih =>
    cases r with
    | nil => rfl
    | cons b r =>
      change a :: indexed (b :: r ++ [some t]) = _
      rw [ih]
      rfl

theorem map_some_reduceOption (h : none ∉ r) : r.reduceOption.map some = r := by
  induction r with
  | nil => rfl
  | cons a r ih =>
    rw [List.mem_cons, not_or] at h
    cases a with
    | none => exact absurd rfl h.1
    | some t => rw [List.reduceOption_cons_of_some, List.map_cons, ih h.2]

theorem products_of_notMem (h : none ∉ r) : products r = [r.reduceOption] := by
  induction r with
  | nil => rfl
  | cons a r ih =>
    rw [List.mem_cons, not_or] at h
    cases a with
    | none => exact absurd rfl h.1
    | some t => rw [products, ih h.2, extend, List.reduceOption_cons_of_some]

theorem products_ne_nil (r : Row) : products r ≠ [] := by
  cases r with
  | nil => simp [products]
  | cons a r =>
    cases a with
    | none => simp [products]
    | some t =>
      rw [products]
      cases products r <;> simp [extend]

theorem two_le_length_products (h : none ∈ r) : 2 ≤ (products r).length := by
  induction r with
  | nil => cases h
  | cons a r ih =>
    have hpos := List.length_pos_iff.2 (products_ne_nil r)
    cases a with
    | none =>
      rw [products, List.length_cons]
      omega
    | some t =>
      have hrest := ih (by simpa using h)
      rw [products]
      cases hproducts : products r with
      | nil => exact absurd hproducts (products_ne_nil r)
      | cons p ps => simpa [extend, hproducts] using hrest

theorem mem_of_mem_products {p : List TypeTree} (hp : p ∈ products r) {t : TypeTree} (ht : t ∈ p) : some t ∈ r := by
  induction r generalizing p with
  | nil =>
    obtain rfl := List.mem_singleton.1 hp
    cases ht
  | cons a r ih =>
    cases a with
    | none =>
      rw [products, List.mem_cons] at hp
      rcases hp with rfl | hp
      · cases ht
      · exact List.mem_cons_of_mem _ (ih hp ht)
    | some u =>
      obtain ⟨q, qs, hqs⟩ := List.exists_cons_of_ne_nil (products_ne_nil r)
      rw [products, hqs, extend, List.mem_cons] at hp
      rcases hp with rfl | hp
      · rcases List.mem_cons.1 ht with rfl | ht
        · exact List.mem_cons_self
        · exact List.mem_cons_of_mem _ (ih (hqs ▸ List.mem_cons_self) ht)
      · exact List.mem_cons_of_mem _ (ih (hqs ▸ List.mem_cons_of_mem _ hp) ht)

theorem ofRow_singleton (h : t.isAtom = true) : ofRow [some t] = t := by
  change combine .union [combine .meet [t]] = t
  rw [(isNormal_of_isAtom h).combine_singleton, (isNormal_of_isAtom h).combine_singleton]

/-! ### Rows without operators in their operands -/

/-- A row whose operands are made without operators. -/
def IsAtomic (r : Row) : Prop := ∀ t, some t ∈ r → t.isAtom = true

theorem isUnion_collapse_meet (h : ∀ t ∈ ts, t.isAtom = true) : (collapse .meet ts).isUnion = false := by
  match ts, h with
  | [], _ => rfl
  | [t], h => exact isUnion_of_isAtom (h t List.mem_cons_self)
  | _ :: _ :: _, _ => rfl

theorem parts_of_isUnion_eq_false (h : t.isUnion = false) : t.parts .union = [t] := by
  cases t with
  | combined op ps => cases op <;> first | rfl | cases h
  | _ => rfl

namespace IsAtomic

theorem ofRow_eq (h : IsAtomic r) : ofRow r = collapse .union ((products r).map (collapse .meet)) := by
  have hatoms : ∀ p ∈ products r, ∀ t ∈ p, t.isAtom = true := fun p hp t ht => h t (mem_of_mem_products hp ht)
  have hproducts : (products r).map (combine .meet) = (products r).map (collapse .meet) :=
    List.map_congr_left fun p hp => combine_of_atoms (hatoms p hp)
  have hparts : ((products r).map (collapse .meet)).flatMap (parts .union) = (products r).map (collapse .meet) := by
    rw [List.flatMap_map]
    calc
      _ = (products r).flatMap fun p => [collapse .meet p] := List.flatMap_congr fun p hp =>
        parts_of_isUnion_eq_false (isUnion_collapse_meet (hatoms p hp))
      _ = _ := List.map_eq_flatMap.symm
  rw [ofRow, hproducts, combine, hparts]

theorem ofRow_of_notMem (h : IsAtomic r) (hr : none ∉ r) : ofRow r = collapse .meet r.reduceOption := by
  rw [h.ofRow_eq, products_of_notMem hr]
  rfl

theorem parts_ofRow_of_notMem (h : IsAtomic r) (hr : none ∉ r) : (ofRow r).parts .meet = r.reduceOption := by
  have hatoms : ∀ t ∈ r.reduceOption, t.isAtom = true := fun t ht => h t (List.reduceOption_mem_iff.1 ht)
  rw [h.ofRow_of_notMem hr, ← combine_of_atoms hatoms, parts_combine fun t ht => isNormal_of_isAtom (hatoms t ht),
    flatMap_parts_of_atoms hatoms]

theorem isUnion_ofRow_of_mem (h : IsAtomic r) (hr : none ∈ r) : (ofRow r).isUnion = true := by
  rw [h.ofRow_eq, collapse_of_two_le (by simpa using two_le_length_products hr)]
  rfl

theorem isUnion_ofRow_of_notMem (h : IsAtomic r) (hr : none ∉ r) : (ofRow r).isUnion = false := by
  rw [h.ofRow_of_notMem hr]
  exact isUnion_collapse_meet fun t ht => h t (List.reduceOption_mem_iff.1 ht)

/-- A row stands for a type without an operator only if it has one operand. -/
theorem eq_singleton_of_isAtom_ofRow (h : IsAtomic r) (ha : (ofRow r).isAtom = true) : ∃ t, r = [some t] := by
  by_cases hr : none ∈ r
  · have hunion := h.isUnion_ofRow_of_mem hr
    rw [isUnion_of_isAtom ha] at hunion
    cases hunion
  · rw [h.ofRow_of_notMem hr] at ha
    have hmap := map_some_reduceOption hr
    match hp : r.reduceOption, ha with
    | [t], _ => exact ⟨t, by rw [← hmap, hp]; rfl⟩
    | [], ha => cases ha
    | _ :: _ :: _, ha => cases ha

end IsAtomic

/-! ### Rows with an operator between their parts -/

variable {rs : List Row}

theorem intercalate_gap_meet (rs : List Row) : (gap .meet).intercalate rs = rs.flatten := by
  induction rs with
  | nil => rfl
  | cons r rs ih =>
    cases rs with
    | nil => simp
    | cons s rs =>
      rw [List.intercalate_cons_of_ne_nil (by simp), ih, List.flatten_cons]
      simp [gap]

theorem isAtomic_intercalate (h : ∀ r ∈ rs, IsAtomic r) : IsAtomic ((gap op).intercalate rs) := by
  induction rs with
  | nil =>
    intro t ht
    cases ht
  | cons r rs ih =>
    have hr := h r List.mem_cons_self
    have hrest := ih fun r hr => h r (List.mem_cons_of_mem _ hr)
    cases rs with
    | nil => simpa using hr
    | cons s rs =>
      rw [List.intercalate_cons_of_ne_nil (by simp)]
      intro t ht
      rw [List.mem_append, List.mem_append] at ht
      rcases ht with (ht | ht) | ht
      · exact hr t ht
      · cases op <;> simp [gap] at ht
      · exact hrest t ht

theorem exists_concat_intercalate (hne : rs ≠ []) (h : ∀ r ∈ rs, ∃ s t, r = s ++ [some t]) :
    ∃ s t, (gap op).intercalate rs = s ++ [some t] := by
  induction rs with
  | nil => exact absurd rfl hne
  | cons r rs ih =>
    cases rs with
    | nil => simpa using h r List.mem_cons_self
    | cons s rs =>
      obtain ⟨s', t, hrest⟩ := ih (by simp) fun r hr => h r (List.mem_cons_of_mem _ hr)
      rw [List.intercalate_cons_of_ne_nil (by simp), hrest]
      exact ⟨r ++ gap op ++ s', t, by simp⟩

theorem ofRow_intercalate_gap_union (hne : ts ≠ []) (h : ∀ t ∈ ts, t.isAtom = true) :
    ofRow ((gap .union).intercalate (ts.map fun t => [some t])) = combine .union ts := by
  have hproducts : products ((gap .union).intercalate (ts.map fun t => [some t])) = ts.map fun t => [t] := by
    clear h
    induction ts with
    | nil => exact absurd rfl hne
    | cons t ts ih =>
      cases ts with
      | nil => rfl
      | cons u ts =>
        have hmap : (u :: ts).map (fun t => [some t]) ≠ [] := by simp
        change products ((gap .union).intercalate ([some t] :: (u :: ts).map fun t => [some t])) = _
        rw [List.intercalate_cons_of_ne_nil hmap]
        change extend t ([] :: products ((gap .union).intercalate ((u :: ts).map fun t => [some t]))) = _
        rw [ih (by simp)]
        rfl
  have hatomic : IsAtomic ((gap .union).intercalate (ts.map fun t => [some t])) := by
    refine isAtomic_intercalate fun r hr t ht => ?_
    obtain ⟨u, hu, rfl⟩ := List.mem_map.1 hr
    obtain rfl : t = u := by simpa using ht
    exact h t hu
  rw [hatomic.ofRow_eq, hproducts, combine_of_atoms h, List.map_map]
  congr 1
  exact List.map_id ts

end TypeTree

end ClientGen
