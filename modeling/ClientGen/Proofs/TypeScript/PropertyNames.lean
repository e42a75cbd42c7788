import ClientGen.Proofs.Text.Spaces
import ClientGen.Proofs.TypeScript.Members
/-!
# Names of properties read back

The name of a property is written bare or in quotes. It is read back from there exactly if it has no quote of its
own: a quote is escaped where it is written, and ends the name where it is read.
-/

namespace ClientGen.Source

open Text

/-! ## One member -/

private theorem collapse_identifier {t : Text} (h : isIdentifier t = true) : collapse t = t :=
  collapse_of_noBlank fun c hc => isBlank_of_isIdentChar (isIdentChar_of_mem h c hc)

private theorem members_renderMember {n type : Text} (hn : '\n' ∉ n) (ht : IsTypeText type) (isOptional : Bool) :
    members (TypeExpr.renderMember n isOptional type) =
      (member? (TypeExpr.renderMember n isOptional type)).toList := by
  have hnested := TypeExpr.nested_renderMember hn ht isOptional
  have hcolon : ':' ∈ TypeExpr.renderMember n isOptional type := by
    cases isOptional <;> simp [TypeExpr.renderMember]
  have hblank : allBlank (TypeExpr.renderMember n isOptional type) = false :=
    List.all_eq_false.2 ⟨':', hcolon, by decide⟩
  rw [members, splitTopLevel_nested hnested hblank]
  cases hmember : member? (TypeExpr.renderMember n isOptional type) with
  | none =>
    rw [List.filterMap_cons_none hmember]
    rfl
  | some e =>
    rw [List.filterMap_cons_some hmember]
    rfl

private theorem memberName?_of_member? {piece : Text} {e : Text × Field} (h : member? piece = some e) :
    ∃ name rest, memberName? (trimStart piece) = some (name, rest) ∧ e.1 = unquote name := by
  obtain ⟨⟨name, rest⟩, hname, h⟩ := Option.bind_eq_some_iff.1 h
  refine ⟨name, rest, hname, ?_⟩
  dsimp only at h
  split at h
  · obtain ⟨type, -, he⟩ := Option.bind_eq_some_iff.1 h
    cases he
    rfl
  · cases h

/-! ## Names with a quote -/

section Quote

variable {p q : Text} (hp : '\'' ∉ p)

include hp

private theorem memberName?_literal (r : Text) :
    memberName? (literal (p ++ '\'' :: q) ++ r) =
      some ('\'' :: (escapeLiteral p ++ ['\\']) ++ ['\''], escapeLiteral q ++ '\'' :: r) := by
  have hescaped : '\'' ∉ escapeLiteral p ++ ['\\'] := by simpa using notMem_escapeLiteral (by decide) hp
  have henclosed := enclosed?_append (o := '\'') hescaped (escapeLiteral q ++ '\'' :: r)
  have hquote : escapeLiteral ('\'' :: q) = '\\' :: '\'' :: escapeLiteral q := rfl
  rw [← henclosed, literal, escapeLiteral_append, hquote]
  simp [memberName?]

private theorem unquote_cut : unquote ('\'' :: (escapeLiteral p ++ ['\\']) ++ ['\'']) = p ++ ['\\'] := by
  have hescaped : '\'' ∉ escapeLiteral p ++ ['\\'] := by simpa using notMem_escapeLiteral (by decide) hp
  have hlast : replace "\\\\" "\\" ['\\'] = ['\\'] := by decide
  rw [unquote_quoted hescaped, replace_escapeLiteral hp, hlast]

private theorem name_member?_renderMember (hl : '\n' ∉ p ++ '\'' :: q) {type : Text} {isOptional : Bool}
    {e : Text × Field} (h : member? (TypeExpr.renderMember (p ++ '\'' :: q) isOptional type) = some e) :
    e.1 = p ++ ['\\'] := by
  have hbare : ¬Naming.isBareName (p ++ '\'' :: q) = true := fun hb =>
    absurd (isIdentChar_of_mem (Naming.isIdentifier_of_isBareName hb hl) '\'' (by simp)) (by decide)
  have hquoted : Naming.propertyName (p ++ '\'' :: q) = literal (p ++ '\'' :: q) := if_neg hbare
  have hstart (r : Text) : trimStart (literal (p ++ '\'' :: q) ++ r) = literal (p ++ '\'' :: q) ++ r :=
    trimStart_cons (by decide) _
  rw [TypeExpr.renderMember, hquoted, List.append_assoc] at h
  obtain ⟨name, rest, hname, he⟩ := memberName?_of_member? h
  rw [hstart, memberName?_literal hp] at hname
  cases hname
  rw [he, unquote_cut hp]

end Quote

/-! ## Any name -/

/-- A member of one line is read back with its name, its type and whether it may be absent exactly if there is no
quote in the name. Otherwise nothing is read, or a member whose name is cut at the first quote. -/
theorem members_renderMember_iff {n type : Text} (hn : '\n' ∉ n) (ht : isIdentifier type = true) (isOptional : Bool) :
    (members (TypeExpr.renderMember n isOptional type) = [(n, ⟨type, isOptional⟩)] ↔ '\'' ∉ n) ∧
      ('\'' ∈ n → ∀ e ∈ members (TypeExpr.renderMember n isOptional type),
        e.1 = n.takeWhile (· ≠ '\'') ++ ['\\']) := by
  have hcut (hq : '\'' ∈ n) : ∀ e ∈ members (TypeExpr.renderMember n isOptional type),
      e.1 = n.takeWhile (· ≠ '\'') ++ ['\\'] := by
    intro e he
    rw [members_renderMember hn (.identifier ht), Option.mem_toList] at he
    obtain ⟨p, q, rfl, hp⟩ := List.eq_append_cons_of_mem hq
    have hbefore : (p ++ '\'' :: q).takeWhile (· ≠ '\'') = p := by
      rw [List.takeWhile_append_of_pos fun c hc => by simpa using ne_of_mem_of_not_mem hc hp]
      simp
    rw [hbefore, name_member?_renderMember hp hn he]
  refine ⟨⟨fun h hq => ?_, fun hq => ?_⟩, hcut⟩
  · have hname : n = n.takeWhile (· ≠ '\'') ++ ['\\'] := hcut hq (n, ⟨type, isOptional⟩) (by simp [h])
    rw [hname, List.mem_append] at hq
    rcases hq with hq | hq
    · simpa using List.mem_takeWhile_imp hq
    · simp at hq
  · have hmember := member?_renderMember (fun _ hc => absurd hc List.not_mem_nil) hq hn (.identifier ht) isOptional
    rw [List.nil_append, collapse_identifier ht] at hmember
    rw [members_renderMember hn (.identifier ht), hmember, Option.toList_some]

/-- Brackets, colons, semicolons and backslashes in a name are no obstacle. -/
theorem members_renderMember_of_odd_name :
    members (TypeExpr.renderMember "a\\[b]: c;" true "string") = [("a\\[b]: c;".toList, ⟨"string", true⟩)] :=
  (members_renderMember_iff (by decide) (by decide) true).1.2 (by decide)

/-- A member whose name has an apostrophe is lost, or gets another name and another type. -/
theorem members_renderMember_apostrophe :
    TypeExpr.renderMember "it's" false "string" = "'it\\'s': string".toList ∧
      members (TypeExpr.renderMember "it's" false "string") = [] ∧
      members (TypeExpr.renderMember "it's" true "string") = [] ∧
      members (TypeExpr.renderMember "a':b" false "string") = [("a\\".toList, ⟨"b': string", false⟩)] := by
  decide

end ClientGen.Source
