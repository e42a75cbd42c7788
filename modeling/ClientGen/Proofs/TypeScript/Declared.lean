import ClientGen.Proofs.TypeScript.Members
import ClientGen.Proofs.TypeScript.Words
import ClientGen.TypeScript.Declaration
/-!
# Declarations read back

A legible declaration is found at the line of its head, as a whole and as it was, and the search for
further ones goes on behind it.
-/

namespace ClientGen

open Text

namespace Source

/-! ## Headings -/

theorem head?_interface {n t : Text} (hn : isIdentifier n = true)
    (ht : ∀ c ∈ t.head?, isNameChar c = false) :
    head? ("export interface ".toList ++ (n ++ t)) =
      some ⟨true, n, skipTypeParameters ['\x7b', '='] t⟩ := by
  have hsplit : "export interface ".toList ++ (n ++ t) =
      "export ".toList ++ ("interface".toList ++ ' ' :: (n ++ t)) := by simp
  have hexport := afterWord?_export ("interface".toList ++ ' ' :: (n ++ t)) (trimStart_cons (by decide) _)
  have hword : afterWord? "interface" ("interface".toList ++ ' ' :: (n ++ t)) = some (n ++ t) := by
    rw [afterWord?_append (by decide), trimStart_identifier hn]
  have hname := nameAt?_identifier hn ht
  rw [hsplit]
  simp only [head?, hexport, Option.getD_some, hword, Option.bind_eq_bind, Option.bind_some, hname]
  rfl

theorem head?_type {n t : Text} (hn : isIdentifier n = true)
    (ht : ∀ c ∈ t.head?, isNameChar c = false) :
    head? ("export type ".toList ++ (n ++ t)) =
      some ⟨false, n, skipTypeParameters ['\x7b', '='] t⟩ := by
  have hsplit : "export type ".toList ++ (n ++ t) =
      "export ".toList ++ ("type".toList ++ ' ' :: (n ++ t)) := by simp
  have hexport := afterWord?_export ("type".toList ++ ' ' :: (n ++ t)) (trimStart_cons (by decide) _)
  have hother : afterWord? "interface" ("type".toList ++ ' ' :: (n ++ t)) = none :=
    afterWord?_cons_of_ne (by decide) _ _
  have hword : afterWord? "type" ("type".toList ++ ' ' :: (n ++ t)) = some (n ++ t) := by
    rw [afterWord?_append (by decide), trimStart_identifier hn]
  have hname := nameAt?_identifier hn ht
  rw [hsplit]
  simp only [head?, hexport, Option.getD_some, hother, hword, Option.map_some, Option.bind_eq_bind,
    Option.bind_some, hname]
  rfl

theorem skipTypeParameters_of_ne {stop : List Char} {c : Char} {t : Text} (hb : isBlank c = false)
    (hc : c ≠ '<') : skipTypeParameters stop (' ' :: c :: t) = c :: t := by
  have htrim : trimStart (' ' :: c :: t) = c :: t := by
    simp [trimStart, show isBlank ' ' = true by decide, hb]
  rw [skipTypeParameters, htrim]
  split
  · next h => exact absurd (List.cons_eq_cons.1 h).1 hc
  · rfl

/-! ## What is extended -/

private theorem isPlain_of_comma : ∀ c, decide (c = ',') = true → isPlain c = true := by
  intro c hc
  simp only [decide_eq_true_eq] at hc
  subst hc
  decide

private theorem nested_name {a p b : Text} (ha : ∀ c ∈ a, c = ' ') (hp : isIdentifier p = true)
    (hb : ∀ c ∈ b, c = ' ') : Nested (· != '/') (· != ',') (a ++ p ++ b) := by
  have hspace {s : Text} (hs : ∀ c ∈ s, c = ' ') : Nested (· != '/') (· != ',') s :=
    .of_plain fun c hc => by
      rw [hs c hc]
      decide
  have hname : Nested (· != '/') (· != ',') p := .of_plain fun c hc => by
    have hi := isIdentChar_of_mem hp c hc
    exact ⟨isPlain_of_isIdentChar hi, by simpa using ne_of_isIdentChar hi (by decide)⟩
  exact ((hspace ha).append hname).append (hspace hb)

private theorem splitMarks_names {ps : List Text} (h : ∀ p ∈ ps, isIdentifier p = true) (hne : ps ≠ [])
    {a : Text} (ha : ∀ c ∈ a, c = ' ') :
    let pieces := splitMarks (· = ',') 0 (marks (a ++ join ", " ps ++ [' ']))
    (∀ w ∈ pieces, allBlank w = false) ∧ pieces.map trim = ps := by
  have hblank {s : Text} (hs : ∀ c ∈ s, c = ' ') : ∀ c ∈ s, isBlank c = true := fun c hc => by
    rw [hs c hc]
    decide
  have hcomma : ∀ c, (c != ',') = true → decide (c = ',') = false := by simp
  have hvisible {a p b : Text} (hp : isIdentifier p = true) : allBlank (a ++ p ++ b) = false := by
    obtain ⟨c, cs, rfl, hc, -⟩ := isIdentifier_iff.1 hp
    simp [allBlank, isBlank_of_isIdentChar (isIdentChar_of_isIdentStart hc)]
  -- what stands before the first name and what stands behind a comma are both only spaces
  induction ps generalizing a with
  | nil => exact absurd rfl hne
  | cons p ps ih =>
    have hp := h p List.mem_cons_self
    cases ps with
    | nil =>
      have hpieces : splitMarks (· = ',') 0 (marks (a ++ p ++ [' '])) = [a ++ p ++ [' ']] := by
        have hall := splitMarks_nested isPlain_of_comma (nested_name ha hp (b := [' ']) (by simp))
          (.inr ⟨rfl, hcomma⟩) []
        rw [List.append_nil] at hall
        rw [hall]
        simp [splitMarks, onFirst]
      rw [join_singleton, hpieces]
      refine ⟨by simpa using hvisible (a := a) (b := [' ']) hp, ?_⟩
      rw [List.map_singleton, trim_typeText (.identifier hp) (hblank ha) (by decide)]
    | cons q ps =>
      obtain ⟨hnone, hmap⟩ := ih (fun p hm => h p (List.mem_cons_of_mem _ hm)) (List.cons_ne_nil _ _)
        (a := [' ']) (by simp)
      have heq : a ++ join ", " (p :: q :: ps) ++ [' '] =
          (a ++ p) ++ ',' :: ([' '] ++ join ", " (q :: ps) ++ [' ']) := by
        rw [join_cons_cons]
        simp
      have hname : Nested (· != '/') (· != ',') (a ++ p) := by
        simpa using nested_name ha hp (b := []) (by simp)
      dsimp only at hnone hmap ⊢
      rw [heq, splitMarks_separator isPlain_of_comma hcomma hname (by decide), List.map_cons, hmap]
      constructor
      · intro w hw
        rcases List.mem_cons.1 hw with rfl | hw
        · simpa using hvisible (a := a) (b := []) hp
        · exact hnone w hw
      · have htrim := trim_typeText (a := a) (b := []) (.identifier hp) (hblank ha) (by simp)
        rw [List.append_nil] at htrim
        rw [htrim]

theorem parentsOf_join {ps : List Text} (h : ∀ p ∈ ps, isIdentifier p = true) (hne : ps ≠ []) :
    parentsOf ("extends ".toList ++ join ", " ps ++ [' ']) = ps := by
  obtain ⟨p, rest, rfl⟩ := List.exists_cons_of_ne_nil hne
  have hp := h p List.mem_cons_self
  have htrim : trimStart (join ", " (p :: rest) ++ [' ']) = join ", " (p :: rest) ++ [' '] := by
    cases rest with
    | nil => rw [join_singleton, trimStart_identifier hp]
    | cons q rest => rw [join_cons_cons, List.append_assoc, List.append_assoc, trimStart_identifier hp]
  have hword : afterWord? "extends" ("extends ".toList ++ join ", " (p :: rest) ++ [' ']) =
      some (join ", " (p :: rest) ++ [' ']) := by
    have hsplit : "extends ".toList ++ join ", " (p :: rest) ++ [' '] =
        "extends".toList ++ ' ' :: (join ", " (p :: rest) ++ [' ']) := by simp
    rw [hsplit, afterWord?_append (by decide), htrim]
  obtain ⟨hnone, hmap⟩ := splitMarks_names h hne (a := []) (by simp)
  rw [List.nil_append] at hnone hmap
  have hkept : splitTopLevel (· = ',') (join ", " (p :: rest) ++ [' ']) =
      splitMarks (· = ',') 0 (marks (join ", " (p :: rest) ++ [' '])) :=
    List.filter_eq_self.2 fun w hw => by rw [hnone w hw, Bool.not_false]
  rw [parentsOf, hword]
  dsimp only
  rw [hkept, hmap, List.filter_eq_self]
  intro q hq
  obtain ⟨c, cs, rfl, -⟩ := isIdentifier_iff.1 (h q hq)
  simp

/-! ## Interfaces -/

/-- The text between the name of an interface and its body. -/
def headingText (parents : List Text) : Text :=
  if parents = [] then [] else "extends " ++ join ", " parents ++ [' ']

private theorem notMem_headingText {parents : List Text} (h : ∀ p ∈ parents, isIdentifier p = true) :
    '\x7b' ∉ headingText parents := by
  have hnames : '\x7b' ∉ join ", " parents := by
    intro hc
    rcases mem_join hc with hc | ⟨p, hp, hc⟩
    · exact absurd hc (by decide)
    · exact absurd (isIdentChar_of_mem (h p hp) _ hc) (by decide)
  unfold headingText
  split
  · simp
  · simpa using hnames

private theorem parentsOf_headingText {parents : List Text}
    (h : ∀ p ∈ parents, isIdentifier p = true) : parentsOf (headingText parents) = parents := by
  unfold headingText
  split
  · next he =>
    rw [he]
    decide
  · next hne => exact parentsOf_join h hne

theorem interfaceAt_nested {parents : List Text} {body : Text} (h : ∀ p ∈ parents, isIdentifier p = true)
    (hb : Nested (· != '/') (· != '/') body) (r : Text) :
    interfaceAt (headingText parents ++ '\x7b' :: (body ++ '\x7d' :: r)) =
      (some (.interface parents (members body)), r) := by
  have hall : ∀ c ∈ headingText parents, (c ≠ '\x7b' : Bool) = true := by
    intro c hc
    simp only [ne_eq, decide_eq_true_eq]
    rintro rfl
    exact notMem_headingText h hc
  have htake : (headingText parents ++ '\x7b' :: (body ++ '\x7d' :: r)).takeWhile (· ≠ '\x7b') =
      headingText parents := by
    rw [List.takeWhile_append_of_pos hall]
    simp
  have hclose : matchingClose? ('\x7b' :: (body ++ '\x7d' :: r)) 0 = some (body.length + 1) :=
    matchingClose?_nested (o := '\x7b') rfl hb
  have hinside : (('\x7b' :: (body ++ '\x7d' :: r)).take (body.length + 1)).drop 1 = body := by
    rw [List.take_succ_cons, List.drop_succ_cons, List.drop_zero, List.take_left]
  have hbehind : ('\x7b' :: (body ++ '\x7d' :: r)).drop (body.length + 1 + 1) = r := by
    rw [List.drop_succ_cons, ← List.drop_drop, List.drop_left]
    rfl
  simp only [interfaceAt, htake, List.drop_left, List.cons_ne_nil, if_false, hclose, hinside, hbehind,
    parentsOf_headingText h]

/-! ## Aliases -/

private theorem aliasOf_of_ends {t : Text} (ht : IsTypeText t)
    (h : t.head? ≠ some '\x7b' ∨ t.getLast? ≠ some '\x7d') : aliasOf t = .typeAlias t := by
  have hno : ¬(startsWith ['\x7b'] t && matchingClose? t 0 = some (t.length - 1)) = true := by
    rw [Bool.and_eq_true, decide_eq_true_eq, startsWith_iff]
    rintro ⟨⟨u, rfl⟩, hclose⟩
    rw [List.singleton_append] at h hclose ht
    obtain ⟨v, w, rfl, hv, -⟩ := ht.nested.of_opener (o := '\x7b') rfl
    have hend : w = [] := by
      rw [matchingClose?_nested (o := '\x7b') rfl hv, Option.some.injEq] at hclose
      simp only [List.length_cons, List.length_append] at hclose
      exact List.length_eq_zero_iff.1 (by omega)
    subst hend
    rcases h with h | h
    · exact h rfl
    · have hlast : ('\x7b' :: (v ++ ['\x7d'])).getLast? = some '\x7d' := by
        rw [← List.cons_append, List.getLast?_concat]
      exact h hlast
  rw [aliasOf, if_neg hno]

theorem statement_typeText {t r : Text} (ht : IsTypeText t) (hr : continuesUnion (marks r) = false) :
    statement (' ' :: t ++ '\n' :: r) = ' ' :: t := by
  have hnested : Nested (· != '/') isTypeChar (' ' :: t) := .plain (by decide) (by decide) ht.nested
  have hends : ∀ c, isTypeChar c = true → c ≠ ';' ∧ c ≠ '\n' := by
    intro c hc
    simp only [isTypeChar, Bool.and_eq_true, bne_iff_ne] at hc
    exact ⟨hc.1.2, hc.2⟩
  have hvisible : allBlank (' ' :: t) = false := by
    obtain ⟨c, u, rfl, hc⟩ := ht.begins
    simp [allBlank, hc]
  have hstop : statementLength 0 false (⟨'\n', false⟩ :: marks r) = 0 := by
    have hdepth : Mark.depthChange ⟨'\n', false⟩ = 0 := by decide
    simp [statementLength, hdepth, hr]
  have hmarks : marks (' ' :: t ++ '\n' :: r) = marks (' ' :: t) ++ ⟨'\n', false⟩ :: marks r := by
    rw [marks_append hnested, marks_cons (c := '\n') (by decide)]
  rw [statement, hmarks, statementLength_nested hnested (.inr ⟨rfl, hends⟩), hvisible, Bool.and_false,
    hstop, Nat.add_zero, List.take_left]

theorem aliasAt_typeText {t r : Text} (ht : IsTypeText t)
    (h : t.head? ≠ some '\x7b' ∨ t.getLast? ≠ some '\x7d')
    (hr : continuesUnion (marks r) = false) :
    aliasAt ('=' :: (' ' :: t ++ '\n' :: r)) = (some (.typeAlias t), '\n' :: r) := by
  have htrim : trim (' ' :: t) = t := by
    simpa using trim_typeText (a := [' ']) (b := []) ht (by decide) (by simp)
  have hkept : dropEndWhile (· = ';') t = t := by
    obtain ⟨u, c, rfl, -, hc, -⟩ := ht.ends
    simp [dropEndWhile, hc]
  have htrim' : trim t = t := by
    simpa using trim_typeText (a := []) (b := []) ht (by simp) (by simp)
  simp only [aliasAt, statement_typeText ht hr, htrim, hkept, htrim', aliasOf_of_ends ht h, List.drop_left]

/-! ## Places -/

theorem declarationAt_isLinewise : IsLinewise declarationAt := by
  intro before t hb
  simp [declarationAt, hb]

private theorem skipTypeParameters_headingText (parents : List Text) (r : Text) :
    skipTypeParameters ['\x7b', '='] (' ' :: (headingText parents ++ '\x7b' :: r)) =
      headingText parents ++ '\x7b' :: r := by
  unfold headingText
  split
  · exact skipTypeParameters_of_ne (by decide) (by decide)
  · have heq : ("extends " ++ join ", " parents ++ [' ']) ++ '\x7b' :: r =
        'e' :: ("xtends " ++ join ", " parents ++ [' '] ++ '\x7b' :: r) := by simp
    rw [heq]
    exact skipTypeParameters_of_ne (by decide) (by decide)

/-- An interface is listed, and the search goes on behind the line of its closing brace. -/
theorem collect_interface {n body : Text} {parents : List Text} (hn : isIdentifier n = true)
    (hp : ∀ p ∈ parents, isIdentifier p = true) (hb : Nested (· != '/') (· != '/') body) (r : Text) :
    collect declarationAt ("export interface ".toList ++ (n ++ ' ' :: (headingText parents ++
        '\x7b' :: (body ++ '\x7d' :: '\n' :: r)))) =
      some (n, .interface parents (members body)) :: collect declarationAt r := by
  let rest : Text := headingText parents ++ '\x7b' :: (body ++ '\x7d' :: '\n' :: r)
  let before : Text := "export interface ".toList ++ n ++ [' '] ++ headingText parents ++ '\x7b' :: body
  have heq : "export interface ".toList ++ (n ++ ' ' :: rest) = before ++ '\x7d' :: ([] ++ '\n' :: r) := by
    simp [before, rest]
  have hhead := head?_interface (t := ' ' :: rest) hn (by
    have hspace : isNameChar ' ' = false := by decide
    simpa using hspace)
  have hlength : (before ++ '\x7d' :: ([] ++ '\n' :: r)).length - ('\n' :: r).length = before.length + 1 := by
    simp only [List.length_append, List.length_cons, List.length_nil]
    omega
  have hfound : declarationAt '\n' (before ++ '\x7d' :: ([] ++ '\n' :: r)) =
      some (some (n, .interface parents (members body)), before.length + 1) := by
    rw [← heq]
    simp only [declarationAt, ne_eq, not_true_eq_false, if_false, hhead, Option.map_some, if_true, rest,
      skipTypeParameters_headingText, interfaceAt_nested hp hb]
    rw [← hlength, ← heq]
  change collect declarationAt ("export interface ".toList ++ (n ++ ' ' :: rest)) = _
  rw [heq]
  exact collect_found declarationAt_isLinewise (by decide) (by simp) hfound

theorem collect_alias {n t r : Text} (hn : isIdentifier n = true) (ht : IsTypeText t)
    (h : t.head? ≠ some '\x7b' ∨ t.getLast? ≠ some '\x7d')
    (hr : continuesUnion (marks r) = false) :
    collect declarationAt ("export type ".toList ++ (n ++ (" = ".toList ++ (t ++ '\n' :: r)))) =
      some (n, .typeAlias t) :: collect declarationAt r := by
  obtain ⟨u, c, hu, hc, -, -⟩ := ht.ends
  let before : Text := "export type ".toList ++ n ++ " = ".toList ++ u
  have heq : "export type ".toList ++ (n ++ (" = ".toList ++ (t ++ '\n' :: r))) =
      before ++ c :: ([] ++ '\n' :: r) := by
    simp [before, hu]
  have hhead := head?_type (t := " = ".toList ++ (t ++ '\n' :: r)) hn (by
    have hspace : isNameChar ' ' = false := by decide
    simpa using hspace)
  have hequals : skipTypeParameters ['\x7b', '='] (" = ".toList ++ (t ++ '\n' :: r)) =
      '=' :: (' ' :: t ++ '\n' :: r) := by
    have hspace : " = ".toList ++ (t ++ '\n' :: r) = ' ' :: '=' :: (' ' :: t ++ '\n' :: r) := by simp
    rw [hspace, skipTypeParameters_of_ne (by decide) (by decide)]
  have hlength : (before ++ c :: ([] ++ '\n' :: r)).length - ('\n' :: r).length = before.length + 1 := by
    simp only [List.length_append, List.length_cons, List.length_nil]
    omega
  have hfound : declarationAt '\n' (before ++ c :: ([] ++ '\n' :: r)) =
      some (some (n, .typeAlias t), before.length + 1) := by
    rw [← heq]
    simp only [declarationAt, ne_eq, not_true_eq_false, if_false, hhead, Option.map_some, hequals,
      Bool.false_eq_true, aliasAt_typeText ht h hr]
    rw [← hlength, ← heq]
  have hlast : c ≠ '\n' := by
    rintro rfl
    exact absurd hc (by decide)
  rw [heq]
  exact collect_found declarationAt_isLinewise hlast (by simp) hfound

end Source

end ClientGen
