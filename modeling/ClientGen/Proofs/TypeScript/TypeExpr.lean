import ClientGen.Proofs.Document.Display
import ClientGen.TypeScript.TypeExpr
/-!
# The text of type expressions

The text of a legible type expression is nested, ends no member and no statement, and neither begins nor
ends with a blank. So it is read back as a whole, wherever it stands.
-/

namespace ClientGen

open Text Source

/-- Whether a character stands in type texts outside brackets and literals. -/
def isTypeChar (c : Char) : Bool := c != '/' && c != ';' && c != '\n'

/-- A text that is read back as the type of a member or an alias. -/
structure IsTypeText (t : Text) : Prop where
  nested : Nested (· != '/') isTypeChar t
  begins : ∃ c u, t = c :: u ∧ isBlank c = false
  ends : ∃ u c, t = u ++ [c] ∧ isBlank c = false ∧ c ≠ ';' ∧ c ≠ ','

/-- A value that may stand in an enumeration: a scalar, and if it is a text, one on one line. -/
def IsEnumValue (v : Value) : Prop := ∃ s, v = .scalar s ∧ ∀ t, s = .text t → '\n' ∉ t

namespace IsTypeText

theorem of_ends {c d : Char} {v : Text} (h : Nested (· != '/') isTypeChar (c :: v ++ [d]))
    (hc : isBlank c = false) (hd : isBlank d = false ∧ d ≠ ';' ∧ d ≠ ',') :
    IsTypeText (c :: v ++ [d]) :=
  ⟨h, ⟨c, v ++ [d], by simp, hc⟩, ⟨c :: v, d, rfl, hd⟩⟩

theorem around {a m b : Text} (ha : IsTypeText a) (hm : Nested (· != '/') isTypeChar m)
    (hb : IsTypeText b) : IsTypeText (a ++ m ++ b) where
  nested := (ha.nested.append hm).append hb.nested
  begins := by
    obtain ⟨c, u, rfl, hc⟩ := ha.begins
    exact ⟨c, u ++ m ++ b, by simp, hc⟩
  ends := by
    obtain ⟨u, c, rfl, hc⟩ := hb.ends
    exact ⟨a ++ m ++ u, c, by simp, hc⟩

theorem join {sep : Text} {ps : List Text} (hs : Nested (· != '/') isTypeChar sep) (hne : ps ≠ [])
    (hp : ∀ p ∈ ps, IsTypeText p) : IsTypeText (join sep ps) := by
  induction ps with
  | nil => exact absurd rfl hne
  | cons p ps ih =>
    cases ps with
    | nil => simpa using hp p List.mem_cons_self
    | cons q ps =>
      rw [join_cons_cons]
      exact (hp p List.mem_cons_self).around hs
        (ih (List.cons_ne_nil _ _) fun p hm => hp p (List.mem_cons_of_mem _ hm))

theorem literal {q : Char} {b : Text} (hq : isQuote q = true) (hb : LiteralBody q b) :
    IsTypeText (q :: b ++ [q]) := by
  have hblank : isBlank q = false ∧ q ≠ ';' ∧ q ≠ ',' := by
    simp only [isQuote, Bool.or_eq_true, beq_iff_eq] at hq
    rcases hq with (rfl | rfl) | rfl
    · decide
    · decide
    · decide
  exact of_ends (Nested.quoted hq hb) hblank.1 hblank

private theorem scalarChar_facts {c : Char} (h : isScalarChar c = true) :
    (isPlain c = true ∧ isTypeChar c = true) ∧ isBlank c = false ∧ c ≠ ';' ∧ c ≠ ',' := by
  simp only [isScalarChar, Bool.or_eq_true, beq_iff_eq] at h
  rcases h with (((h | rfl) | rfl) | rfl) | rfl
  · have hne (d : Char) (hd : isIdentChar d = false) : c ≠ d := ne_of_isIdentChar h hd
    refine ⟨⟨isPlain_of_isIdentChar h, ?_⟩, isBlank_of_isIdentChar h, hne _ (by decide), hne _ (by decide)⟩
    simp [isTypeChar, hne '/' (by decide), hne ';' (by decide), hne '\n' (by decide)]
  · decide
  · decide
  · decide
  · decide

theorem word {t : Text} (h : IsScalarWord t) : IsTypeText t where
  nested := Nested.of_plain fun c hc => (scalarChar_facts (h.chars c hc)).1
  begins := by
    obtain ⟨c, u, rfl⟩ := List.exists_cons_of_ne_nil h.ne_nil
    exact ⟨c, u, rfl, (scalarChar_facts (h.chars c List.mem_cons_self)).2.1⟩
  ends := by
    refine ⟨t.dropLast, t.getLast h.ne_nil, (List.dropLast_append_getLast h.ne_nil).symm, ?_⟩
    exact (scalarChar_facts (h.chars _ (List.getLast_mem h.ne_nil))).2

theorem identifier {t : Text} (h : isIdentifier t = true) : IsTypeText t :=
  word (IsNumberWord.of_isIdentifier h).isScalarWord

end IsTypeText

/-! ## Literals -/

theorem literalBody_escapeLiteral {t : Text} (h : '\n' ∉ t) : LiteralBody '\'' (escapeLiteral t) := by
  induction t with
  | nil => exact .nil
  | cons c t ih =>
    rw [List.mem_cons, not_or] at h
    have ih := ih h.2
    simp only [escapeLiteral, List.flatMap_cons] at ih ⊢
    split
    · exact .escape ih
    · next hc =>
      simp only [Bool.or_eq_true, decide_eq_true_eq, not_or] at hc
      exact .plain hc.1 hc.2 (fun hn => absurd hn.symm h.1) ih

theorem IsTypeText.renderLiteral {v : Value} (h : IsEnumValue v) : IsTypeText (TypeExpr.renderLiteral v) := by
  obtain ⟨s, rfl, hs⟩ := h
  cases s with
  | null => exact .word ⟨by decide, by decide⟩
  | bool b => cases b <;> exact .word ⟨by decide, by decide⟩
  | int n => exact .word (.ofInt n)
  | float x => exact .word (.float x)
  | text t => exact .literal rfl (literalBody_escapeLiteral (hs t rfl))
  | date d => exact .word (.date d)
  | moment m =>
    obtain ⟨clock, hm, hclock⟩ := m.toText_shape
    have htext : TypeExpr.renderLiteral (.scalar (.moment m)) = m.date.toText ++ [' '] ++ clock := by
      simp [TypeExpr.renderLiteral, Value.toText, Scalar.toText, hm]
    rw [htext]
    exact (word (.date m.date)).around (.of_plain (by decide)) (word hclock)
  | bytes bs =>
    obtain ⟨q, body, hb, hq, hbody⟩ := Scalar.bytesInside_shape bs
    have hlit := IsTypeText.literal hq hbody
    have htext : TypeExpr.renderLiteral (.scalar (.bytes bs)) = 'b' :: (q :: body) ++ [q] := by
      simp [TypeExpr.renderLiteral, Value.toText, Scalar.toText, hb]
    obtain ⟨u, c, hu, hc⟩ := hlit.ends
    rw [htext]
    refine .of_ends (.plain (by decide) (by decide) hlit.nested) (by decide) ?_
    have hlast : [q] = [c] := (List.append_inj' hu rfl).2
    rw [List.singleton_inj] at hlast
    exact hlast ▸ hc

/-! ## Type expressions -/

namespace TypeExpr

private theorem head?_ne_of_isScalarWord {a b : Text} (h : IsScalarWord a) :
    (a ++ b).head? ≠ some '\x7b' := by
  obtain ⟨c, u, rfl⟩ := List.exists_cons_of_ne_nil h.ne_nil
  intro hc
  have hscalar := h.chars c List.mem_cons_self
  rw [Option.some.inj hc] at hscalar
  exact absurd hscalar (by decide)

private theorem head?_renderLiteral {v : Value} (h : IsEnumValue v) :
    (renderLiteral v).head? ≠ some '\x7b' := by
  have hword {t : Text} (ht : IsScalarWord t) : t.head? ≠ some '\x7b' := by
    simpa using head?_ne_of_isScalarWord (b := []) ht
  obtain ⟨s, rfl, hs⟩ := h
  cases s with
  | null => decide
  | bool b => cases b <;> decide
  | int n => exact hword (.ofInt n)
  | float x => exact hword (.float x)
  | text t => exact fun hc => absurd (Option.some.inj hc) (by decide)
  | date d => exact hword (.date d)
  | moment m =>
    obtain ⟨clock, hm, -⟩ := m.toText_shape
    have htext : renderLiteral (.scalar (.moment m)) = m.date.toText ++ (' ' :: clock) := by
      simp [renderLiteral, Value.toText, Scalar.toText, hm]
    rw [htext]
    exact head?_ne_of_isScalarWord (.date m.date)
  | bytes bs => exact fun hc => absurd (Option.some.inj hc) (by decide)

theorem head?_renderLiterals {vs : List Value} (hne : vs ≠ []) (hv : ∀ v ∈ vs, IsEnumValue v) :
    (renderLiterals vs).head? ≠ some '\x7b' := by
  obtain ⟨v, vs, rfl⟩ := List.exists_cons_of_ne_nil hne
  have h := hv v List.mem_cons_self
  obtain ⟨c, u, hu, -⟩ := (IsTypeText.renderLiteral h).begins
  rw [renderLiterals, List.map_cons, head?_join (hu ▸ List.cons_ne_nil c u)]
  exact head?_renderLiteral h

/-- A type expression whose names are identifiers, whose literals stand on one line and whose lists are
not empty. -/
inductive IsLegible : TypeExpr → Prop
  | keyword (k : Keyword) : IsLegible (.keyword k)
  | named {n : Text} (hn : isIdentifier n = true) : IsLegible (.named n)
  | literals {vs : List Value} (hne : vs ≠ []) (hv : ∀ v ∈ vs, IsEnumValue v) :
      IsLegible (.literals vs)
  | intersection {es : List TypeExpr} (hne : es ≠ []) (he : ∀ e ∈ es, IsLegible e) :
      IsLegible (.intersection es)
  | array {e : TypeExpr} (he : IsLegible e) : IsLegible (.array e)
  | grouped {e : TypeExpr} (he : IsLegible e) : IsLegible (.grouped e)
  | object {ms : List (Member TypeExpr)} (hn : ∀ m ∈ ms, '\n' ∉ m.name)
      (hm : ∀ m ∈ ms, IsLegible m.type) : IsLegible (.object ms)
  | record {e : TypeExpr} (he : IsLegible e) : IsLegible (.record e)

theorem renderAll_eq_map (es : List TypeExpr) : renderAll es = es.map render := by
  induction es with
  | nil => rfl
  | cons e es ih => rw [renderAll, ih, List.map_cons]

theorem renderMembers_eq_map (ms : List (Member TypeExpr)) :
    renderMembers ms = ms.map fun m => renderMember m.name m.isOptional m.type.render := by
  induction ms with
  | nil => rfl
  | cons m ms ih => rw [renderMembers, ih, List.map_cons]

theorem nested_propertyName {n : Text} (h : '\n' ∉ n) :
    Nested (· != '/') isTypeChar (Naming.propertyName n) := by
  unfold Naming.propertyName
  split
  · next hb => exact (IsTypeText.identifier (Naming.isIdentifier_of_isBareName hb h)).nested
  · exact Nested.quoted rfl (literalBody_escapeLiteral h)

theorem nested_renderMember {n type : Text} (hn : '\n' ∉ n) (ht : IsTypeText type) (isOptional : Bool) :
    Nested (· != '/') isTypeChar (renderMember n isOptional type) := by
  refine ((nested_propertyName hn).append ?_).append ht.nested
  cases isOptional
  · exact .of_plain (by decide)
  · exact .of_plain (by decide)

private theorem inner_of_outer {t : Text} (h : Nested (· != '/') isTypeChar t) :
    Nested (· != '/') (· != '/') t :=
  h.mono fun c hc => by
    simp only [isTypeChar, Bool.and_eq_true] at hc
    exact hc.1.1

/-- The text of a legible type expression is read back as a whole. -/
theorem IsLegible.render {e : TypeExpr} (h : e.IsLegible) : IsTypeText e.render := by
  induction h with
  | keyword k => cases k <;> exact .word ⟨by decide, by decide⟩
  | named hn => exact .identifier hn
  | @literals vs hne hv =>
    change IsTypeText (Text.join " | " (vs.map renderLiteral))
    have hmap : vs.map renderLiteral ≠ [] := mt List.map_eq_nil_iff.1 hne
    refine .join (.of_plain (by decide)) hmap fun p hp => ?_
    obtain ⟨v, hm, rfl⟩ := List.mem_map.1 hp
    exact .renderLiteral (hv v hm)
  | @intersection es hne _ ih =>
    change IsTypeText (Text.join " & " (renderAll es))
    rw [renderAll_eq_map]
    have hmap : es.map TypeExpr.render ≠ [] := mt List.map_eq_nil_iff.1 hne
    refine .join (.of_plain (by decide)) hmap fun p hp => ?_
    obtain ⟨e, hm, rfl⟩ := List.mem_map.1 hp
    exact ih e hm
  | @array e _ ih =>
    change IsTypeText (e.render ++ "[]")
    obtain ⟨c, u, hu, hc⟩ := ih.begins
    have hnested := ih.nested.append (Nested.bracketed (o := '[') (v := []) rfl .nil)
    have heq : e.render ++ "[]" = c :: (u ++ ['[']) ++ [']'] := by simp [hu]
    rw [heq]
    refine .of_ends ?_ hc (by decide)
    simpa [hu] using hnested
  | @grouped e _ ih =>
    change IsTypeText ("(" ++ e.render ++ ")")
    have heq : "(" ++ e.render ++ ")" = '(' :: e.render ++ [')'] := by simp
    rw [heq]
    exact .of_ends (Nested.bracketed rfl (inner_of_outer ih.nested)) (by decide) (by decide)
  | @object ms hn _ ih =>
    change IsTypeText ("\x7b " ++ Text.join "; " (renderMembers ms) ++ " \x7d")
    have hspace : Nested (· != '/') (· != '/') [' '] := .of_plain (by decide)
    have hmembers : Nested (· != '/') (· != '/') (Text.join "; " (renderMembers ms)) := by
      rw [renderMembers_eq_map]
      refine .join (.of_plain (by decide)) fun p hp => ?_
      obtain ⟨m, hm, rfl⟩ := List.mem_map.1 hp
      exact inner_of_outer (nested_renderMember (hn m hm) (ih m hm) _)
    have heq : "\x7b " ++ Text.join "; " (renderMembers ms) ++ " \x7d" =
        '\x7b' :: ([' '] ++ Text.join "; " (renderMembers ms) ++ [' ']) ++ ['\x7d'] := by simp
    rw [heq]
    exact .of_ends (Nested.bracketed rfl ((hspace.append hmembers).append hspace)) (by decide)
      (by decide)
  | @record e _ ih =>
    change IsTypeText ("Record<string, " ++ e.render ++ ">")
    have hopen : Nested (· != '/') isTypeChar "Record<string, ".toList := .of_plain (by decide)
    have hclose : Nested (· != '/') isTypeChar ">".toList := .of_plain (by decide)
    have heq : "Record<string, " ++ e.render ++ ">" = 'R' :: ("ecord<string, " ++ e.render) ++ ['>'] := by
      simp
    have hnested := (hopen.append ih.nested).append hclose
    rw [heq] at hnested ⊢
    exact .of_ends hnested (by decide) (by decide)

end TypeExpr

end ClientGen
