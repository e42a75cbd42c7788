import ClientGen.Proofs.TypeScript.Declared
import ClientGen.TypeScript.TypesFile
/-!
# Types files

A types file of legible declarations is read back declaration by declaration. Its comments leave nothing
behind but blank lines.
-/

namespace ClientGen

open Text Source

/-! ## What is read back -/

namespace DeclaredMember

def field (m : DeclaredMember) : Text × Field :=
  (m.member.name, ⟨collapse m.member.type.render, m.member.isOptional⟩)

/-- A member that is read back. -/
structure IsLegible (m : DeclaredMember) : Prop where
  comment_open : ∀ c ∈ m.comment, ¬"*/".toList <:+: c
  name_plain : IsPropertyName m.member.name
  type_legible : m.member.type.IsLegible

end DeclaredMember

/-- What is read back of the type of the values under other keys. -/
def indexField (type : TypeExpr) : Text × Field := ("[key: string]".toList, ⟨collapse type.render, false⟩)

namespace Declaration

/-- What is read back of a declaration. -/
def declared : Declaration → Declared
  | .interface _ _ parents members index =>
    .interface parents (members.map DeclaredMember.field ++ (index.map indexField).toList)
  | .typeAlias _ _ type => .typeAlias type.render

def comment : Declaration → Option Text
  | .interface c _ _ _ _ => c
  | .typeAlias c _ _ => c

/-- What an alias or an interface is asked to be read back. -/
def HasLegibleBody : Declaration → Prop
  | .interface _ _ parents members index =>
    (∀ p ∈ parents, isIdentifier p = true) ∧ (∀ m ∈ members, m.IsLegible) ∧
      (members.map (·.member.name)).Nodup ∧ ∀ type ∈ index, type.IsLegible
  | .typeAlias _ _ type =>
    type.IsLegible ∧ (type.render.head? ≠ some '\x7b' ∨ type.render.getLast? ≠ some '\x7d')

/-- A declaration that is read back. -/
structure IsLegible (d : Declaration) : Prop where
  name_identifier : isIdentifier d.name = true
  comment_open : ∀ c ∈ d.comment, ¬"*/".toList <:+: c
  body_legible : d.HasLegibleBody

end Declaration

/-! ## Comments -/

/-- Without comments, the lines `ls` are the lines `ls'`. -/
def LeavesLines (ls ls' : List Text) : Prop :=
  ∀ r, stripComments (unlines ls ++ r) = unlines ls' ++ stripComments r

namespace LeavesLines

theorem nil : LeavesLines [] [] := fun _ => rfl

theorem append {as as' bs bs' : List Text} (ha : LeavesLines as as') (hb : LeavesLines bs bs') :
    LeavesLines (as ++ bs) (as' ++ bs') := by
  intro r
  rw [unlines_append, unlines_append, List.append_assoc, ha, hb, List.append_assoc]

theorem flatMap {α : Type} {f g : α → List Text} {as : List α} (h : ∀ a ∈ as, LeavesLines (f a) (g a)) :
    LeavesLines (as.flatMap f) (as.flatMap g) := by
  induction as with
  | nil => exact nil
  | cons a as ih =>
    rw [List.flatMap_cons, List.flatMap_cons]
    exact (h a List.mem_cons_self).append (ih fun b hb => h b (List.mem_cons_of_mem _ hb))

theorem line {l : Text} (h : ∀ r, stripComments (l ++ r) = l ++ stripComments r) : LeavesLines [l] [l] := by
  intro r
  have hline : stripComments ('\n' :: r) = '\n' :: stripComments r :=
    stripComments_cons (by decide) (by decide)
  simp only [unlines_cons, unlines_nil, List.append_assoc, List.cons_append, List.nil_append, h, hline]

theorem nested {inner outer : Char → Bool} {l : Text} (h : Nested inner outer l)
    (hi : inner '/' = false) (ho : outer '/' = false) : LeavesLines [l] [l] :=
  line fun _ => stripComments_nested h hi ho

theorem plain {l : Text} (h : ∀ c ∈ l, isQuote c = false ∧ c ≠ '/') : LeavesLines [l] [l] := by
  refine line fun r => ?_
  induction l with
  | nil => rfl
  | cons c l ih =>
    obtain ⟨hq, hc⟩ := h c List.mem_cons_self
    rw [List.cons_append, stripComments_cons hq hc, ih fun d hd => h d (List.mem_cons_of_mem _ hd),
      List.cons_append]

end LeavesLines

/-- The line that a comment leaves behind. -/
def blankLine (margin : Text) (comment : Option Text) : List Text :=
  match comment with
  | some _ => [margin]
  | none => []

theorem leavesLines_comment {margin : Text} {comment : Option Text} (hm : ∀ c ∈ margin, c = ' ')
    (hc : ∀ c ∈ comment, ¬"*/".toList <:+: c) :
    LeavesLines (commentLine margin comment) (blankLine margin comment) := by
  cases comment with
  | none => exact .nil
  | some t =>
    intro r
    have hplain : Nested (· != '/') (· != '/') margin := .of_plain fun c hc => by
      rw [hm c hc]
      decide
    have hmargin (r : Text) : stripComments (margin ++ r) = margin ++ stripComments r :=
      stripComments_nested hplain (by decide) (by decide)
    have hline : stripComments ('\n' :: r) = '\n' :: stripComments r :=
      stripComments_cons (by decide) (by decide)
    have heq : unlines (commentLine margin (some t)) ++ r =
        margin ++ ("/** ".toList ++ t ++ " */".toList ++ '\n' :: r) := by
      simp [commentLine]
    rw [heq, hmargin, stripComments_comment (hc t rfl), hline]
    simp [blankLine]

private theorem head?_replace_end (t : Text) : (replace "*/" "* /" t).head? = t.head? := by
  cases t with
  | nil => rfl
  | cons c t =>
    by_cases h : "*/".toList <+: c :: t
    · obtain ⟨r, hr⟩ := h
      rw [← hr, replace_append (by simp)]
      rfl
    · rw [replace_cons h]
      rfl

private theorem replace_end_open (t : Text) : ¬"*/".toList <:+: replace "*/" "* /" t := by
  induction hn : t.length using Nat.strongRecOn generalizing t with
  | _ n ih =>
    cases t with
    | nil => simp
    | cons c t =>
      by_cases h : "*/".toList <+: c :: t
      · obtain ⟨r, hr⟩ := h
        have hr' : '*' :: '/' :: r = c :: t := by simpa using hr
        have hlength := congrArg List.length hr'
        simp only [List.length_cons] at hlength hn
        have hrest := ih r.length (by omega) r rfl
        have heq : "* /".toList ++ replace "*/" "* /" r = ['*'] ++ ' ' :: ('/' :: replace "*/" "* /" r) := by
          simp
        rw [← hr, replace_append (by simp), heq, infix_append_cons_iff (by decide), not_or]
        refine ⟨by decide, ?_⟩
        rw [List.infix_cons_iff, not_or]
        exact ⟨by simp, hrest⟩
      · have hrest := ih t.length (by simp at hn; omega) t rfl
        rw [replace_cons h, List.infix_cons_iff, not_or]
        refine ⟨?_, hrest⟩
        rintro ⟨r, hr⟩
        have hr' : '*' :: '/' :: r = c :: replace "*/" "* /" t := by simpa using hr
        obtain ⟨rfl, hslash⟩ := List.cons_eq_cons.1 hr'
        have hhead : t.head? = some '/' := by rw [← head?_replace_end, ← hslash]; rfl
        obtain ⟨u, rfl⟩ := List.head?_eq_some_iff.1 hhead
        exact h ⟨u, rfl⟩

theorem commentText_open (t : Text) : ¬"*/".toList <:+: commentText t := fun h =>
  replace_end_open t (infix_of_infix_collapse (by decide) (by decide) h)

/-! ## Code -/

namespace DeclaredMember

/-- The line of a member without its comment. -/
def codeLine (m : DeclaredMember) : Text :=
  "  " ++ TypeExpr.renderMember m.member.name m.member.isOptional m.member.type.render

/-- The lines of a member, the comment blank. -/
def codeLines (m : DeclaredMember) : List Text := blankLine "  " m.comment ++ [m.codeLine]

variable {m : DeclaredMember}

theorem nested_codeLine (h : m.IsLegible) : Nested (· != '/') isTypeChar m.codeLine := by
  have hmargin : Nested (· != '/') isTypeChar "  ".toList := .of_plain (by decide)
  exact hmargin.append (TypeExpr.nested_renderMember h.name_plain.one_line h.type_legible.render _)

theorem nested_codeLines (h : m.IsLegible) {l : Text} (hl : l ∈ m.codeLines) :
    Nested (· != '/') isTypeChar l := by
  rw [codeLines, List.mem_append, List.mem_singleton] at hl
  rcases hl with hl | rfl
  · cases hc : m.comment with
    | none =>
      rw [hc] at hl
      cases hl
    | some t =>
      rw [hc, blankLine, List.mem_singleton] at hl
      exact hl ▸ .of_plain (by decide)
  · exact nested_codeLine h

theorem lines_leave (h : m.IsLegible) : LeavesLines m.lines m.codeLines :=
  (leavesLines_comment (by simp) h.comment_open).append
    (.nested (nested_codeLine h) (by decide) (by decide))

end DeclaredMember

/-- The line of the type of the values under other keys. -/
def indexLine (type : TypeExpr) : Text := "  [key: string]: " ++ type.render

theorem nested_indexLine {type : TypeExpr} (h : type.IsLegible) :
    Nested (· != '/') isTypeChar (indexLine type) := by
  have hname : Nested (· != '/') isTypeChar "  [key: string]: ".toList := by
    have hmargin : Nested (· != '/') isTypeChar "  ".toList := .of_plain (by decide)
    have hkey : Nested (· != '/') isTypeChar ('[' :: "key: string".toList ++ [']']) :=
      .bracketed rfl (.of_plain (by decide))
    have hcolon : Nested (· != '/') isTypeChar ": ".toList := .of_plain (by decide)
    simpa using (hmargin.append hkey).append hcolon
  exact hname.append h.render.nested

/-- The lines in the body of an interface, comments blank. -/
def bodyLines (members : List DeclaredMember) (index : Option TypeExpr) : List Text :=
  members.flatMap DeclaredMember.codeLines ++ (index.map indexLine).toList

section Body

variable {members : List DeclaredMember} {index : Option TypeExpr}

private theorem nested_bodyLines (hm : ∀ m ∈ members, m.IsLegible) (hi : ∀ type ∈ index, type.IsLegible)
    {l : Text} (hl : l ∈ bodyLines members index) : Nested (· != '/') isTypeChar l := by
  rw [bodyLines, List.mem_append, List.mem_flatMap, Option.mem_toList, Option.map_eq_some_iff] at hl
  rcases hl with ⟨m, hmem, hl⟩ | ⟨type, ht, rfl⟩
  · exact DeclaredMember.nested_codeLines (hm m hmem) hl
  · exact nested_indexLine (hi type ht)

private theorem nested_unlines {ls : List Text} (h : ∀ l ∈ ls, Nested (· != '/') isTypeChar l) :
    Nested (· != '/') (· != '/') (unlines ls) := by
  have hcode : ∀ c, isTypeChar c = true → (c != '/') = true := by
    intro c hc
    simp only [isTypeChar, Bool.and_eq_true] at hc
    exact hc.1.1
  induction ls with
  | nil => exact .nil
  | cons l ls ih =>
    rw [unlines_cons]
    exact ((h l List.mem_cons_self).mono hcode).append
      (.plain (by decide) (by decide) (ih fun l hl => h l (List.mem_cons_of_mem _ hl)))

private theorem member?_of_allBlank {l : Text} (h : allBlank l = true) : member? l = none := by
  rw [member?, trimStart_of_allBlank h]
  rfl

private theorem filterMap_member?_blankLine (comment : Option Text) :
    (blankLine "  " comment).filterMap member? = [] := by
  have hblank : member? "  " = none := member?_of_allBlank (by decide)
  cases comment with
  | none => rfl
  | some t => rw [blankLine, List.filterMap_cons, hblank, List.filterMap_nil]

private theorem filterMap_member?_bodyLines (hm : ∀ m ∈ members, m.IsLegible)
    (hi : ∀ type ∈ index, type.IsLegible) :
    (bodyLines members index).filterMap member? =
      members.map DeclaredMember.field ++ (index.map indexField).toList := by
  have hmembers : (members.flatMap DeclaredMember.codeLines).filterMap member? =
      members.map DeclaredMember.field := by
    induction members with
    | nil => rfl
    | cons m members ih =>
      have h := hm m List.mem_cons_self
      have hline : member? m.codeLine = some m.field :=
        member?_renderMember (by decide) h.name_plain.unquoted h.name_plain.one_line h.type_legible.render _
      rw [List.flatMap_cons, List.filterMap_append, DeclaredMember.codeLines, List.filterMap_append,
        filterMap_member?_blankLine, ih fun n hn => hm n (List.mem_cons_of_mem _ hn)]
      simp [hline]
  have hindex : (index.map indexLine).toList.filterMap member? = (index.map indexField).toList := by
    cases index with
    | none => rfl
    | some type =>
      have hline : member? (indexLine type) = some (indexField type) :=
        member?_index (hi type rfl).render
      simp [hline]
  rw [bodyLines, List.filterMap_append, hmembers, hindex]

theorem members_bodyLines (hm : ∀ m ∈ members, m.IsLegible)
    (hd : (members.map (·.member.name)).Nodup) (hi : ∀ type ∈ index, type.IsLegible) :
    Source.members ('\n' :: unlines (bodyLines members index)) =
      members.map DeclaredMember.field ++ (index.map indexField).toList := by
  have hlines : ∀ l ∈ [] :: bodyLines members index, Nested (· != '/') isTypeChar l := by
    intro l hl
    rcases List.mem_cons.1 hl with rfl | hl
    · exact .nil
    · exact nested_bodyLines hm hi hl
  have hpieces := splitTopLevel_unlines hlines
  have hfound : (([] :: bodyLines members index).filter (!allBlank ·)).filterMap member? =
      ([] :: bodyLines members index).filterMap member? := by
    rw [List.filterMap_filter]
    refine List.filterMap_congr fun l _ => ?_
    cases hl : allBlank l with
    | false => rfl
    | true => exact (member?_of_allBlank hl).symm
  have hkeys : ((members.map DeclaredMember.field ++ (index.map indexField).toList).map Prod.fst).Nodup := by
    have hnames : (members.map DeclaredMember.field).map Prod.fst = members.map (·.member.name) := by
      rw [List.map_map]
      rfl
    rw [List.map_append, hnames]
    cases index with
    | none => simpa using hd
    | some type =>
      refine List.nodup_append.2 ⟨hd, by simp, ?_⟩
      intro a ha b hb
      obtain ⟨m, hmem, rfl⟩ := List.mem_map.1 ha
      have hkey : b = "[key: string]".toList := List.mem_singleton.1 hb
      rw [hkey]
      exact (hm m hmem).name_plain.not_index
  have hempty : member? [] = none := member?_of_allBlank rfl
  rw [unlines_cons, List.nil_append] at hpieces
  rw [Source.members, hpieces, hfound, List.filterMap_cons, hempty]
  dsimp only
  rw [filterMap_member?_bodyLines hm hi, Table.ofEntries_of_nodup hkeys]

end Body

namespace Declaration

/-- The lines of a declaration without its own comment, the comments of members blank. -/
def coreLines : Declaration → List Text
  | .interface _ name parents members index =>
    ("export interface " ++ name ++ heritage parents ++ " \x7b") ::
      (bodyLines members index ++ [['\x7d']])
  | .typeAlias _ name type => ["export type " ++ name ++ " = " ++ type.render]

/-- The lines of a declaration, comments blank. -/
def codeLines (d : Declaration) : List Text := blankLine [] d.comment ++ d.coreLines

variable {d : Declaration}

private theorem plain_identifier {n : Text} (h : isIdentifier n = true) :
    ∀ c ∈ n, isQuote c = false ∧ c ≠ '/' := by
  intro c hc
  have hi := isIdentChar_of_mem h c hc
  have hp := isPlain_of_isIdentChar hi
  simp only [isPlain, Bool.and_eq_true, Bool.not_eq_true'] at hp
  exact ⟨hp.1.1, ne_of_isIdentChar hi (by decide)⟩

private theorem plain_heritage {parents : List Text} (h : ∀ p ∈ parents, isIdentifier p = true) :
    ∀ c ∈ heritage parents, isQuote c = false ∧ c ≠ '/' := by
  have hwords : ∀ w ∈ [" extends ".toList, ", ".toList], ∀ c ∈ w, isQuote c = false ∧ c ≠ '/' := by
    decide
  intro c hc
  rw [heritage] at hc
  split at hc
  · cases hc
  · rcases List.mem_append.1 hc with hc | hc
    · exact hwords _ (by simp) c hc
    · rcases mem_join hc with hc | ⟨p, hp, hc⟩
      · exact hwords _ (by simp) c hc
      · exact plain_identifier (h p hp) c hc

private theorem headLine_leaves {name : Text} {parents : List Text} (hn : isIdentifier name = true)
    (hp : ∀ p ∈ parents, isIdentifier p = true) :
    LeavesLines ["export interface " ++ name ++ heritage parents ++ " \x7b"]
      ["export interface " ++ name ++ heritage parents ++ " \x7b"] := by
  have hwords : ∀ w ∈ ["export interface ".toList, " \x7b".toList], ∀ c ∈ w,
      isQuote c = false ∧ c ≠ '/' := by decide
  refine .plain fun c hc => ?_
  rcases List.mem_append.1 hc with hc | hc
  · rcases List.mem_append.1 hc with hc | hc
    · rcases List.mem_append.1 hc with hc | hc
      · exact hwords _ List.mem_cons_self c hc
      · exact plain_identifier hn c hc
    · exact plain_heritage hp c hc
  · exact hwords _ (List.mem_cons_of_mem _ List.mem_cons_self) c hc

private theorem aliasLine_leaves {name : Text} {type : TypeExpr} (hn : isIdentifier name = true)
    (ht : type.IsLegible) :
    LeavesLines ["export type " ++ name ++ " = " ++ type.render]
      ["export type " ++ name ++ " = " ++ type.render] := by
  have hname : Nested (· != '/') isTypeChar name := (IsTypeText.identifier hn).nested
  have hword : Nested (· != '/') isTypeChar "export type ".toList := .of_plain (by decide)
  have hequals : Nested (· != '/') isTypeChar " = ".toList := .of_plain (by decide)
  exact .nested (((hword.append hname).append hequals).append ht.render.nested) (by decide) (by decide)

theorem lines_leave (h : d.IsLegible) : LeavesLines d.lines d.codeLines := by
  have hcomment : LeavesLines (commentLine [] d.comment) (blankLine [] d.comment) :=
    leavesLines_comment (by simp) h.comment_open
  have hn : isIdentifier d.name = true := h.name_identifier
  cases d with
  | interface comment name parents members index =>
    obtain ⟨hp, hm, -, hi⟩ := h.body_legible
    have hmembers : LeavesLines (members.flatMap DeclaredMember.lines)
        (members.flatMap DeclaredMember.codeLines) :=
      .flatMap fun m hmem => DeclaredMember.lines_leave (hm m hmem)
    have hindex : LeavesLines (indexLines index) (index.map indexLine).toList := by
      cases index with
      | none => exact .nil
      | some type => exact .nested (nested_indexLine (hi type rfl)) (by decide) (by decide)
    have hclose : LeavesLines [['\x7d']] [['\x7d']] := .plain (by decide)
    have hall := (((hcomment.append (headLine_leaves hn hp)).append hmembers).append hindex).append hclose
    have heq : blankLine [] comment ++ ["export interface " ++ name ++ heritage parents ++ " \x7b"] ++
        members.flatMap DeclaredMember.codeLines ++ (index.map indexLine).toList ++ [['\x7d']] =
        codeLines (.interface comment name parents members index) := by
      unfold codeLines coreLines bodyLines
      simp only [List.append_assoc, List.cons_append, List.nil_append, Declaration.comment]
    rw [← heq]
    exact hall
  | typeAlias comment name type => exact hcomment.append (aliasLine_leaves hn h.body_legible.1)

private theorem declarationAt_newline (r : Text) : declarationAt '\n' ('\n' :: r) = none := by
  have hexport : afterWord? "export" ('\n' :: r) = none :=
    afterWord?_cons_of_ne (a := 'e') (by decide) "xport".toList r
  have hinterface : afterWord? "interface" ('\n' :: r) = none :=
    afterWord?_cons_of_ne (a := 'i') (by decide) "nterface".toList r
  have htype : afterWord? "type" ('\n' :: r) = none :=
    afterWord?_cons_of_ne (a := 't') (by decide) "ype".toList r
  have hmargin : skipMargin ('\n' :: r) = '\n' :: r := skipMargin_cons (by decide) r
  have hhead : head? ('\n' :: r) = none := by
    simp only [head?, hmargin, hexport, Option.getD_none, hinterface, htype, Option.map_none,
      Option.bind_eq_bind, Option.bind_none]
  rw [declarationAt, hhead, Option.map_none, ite_self]

theorem collect_newline (r : Text) : collect declarationAt ('\n' :: r) = collect declarationAt r :=
  collect_line declarationAt_isLinewise (l := []) (by simp) (declarationAt_newline r)

theorem collect_codeLines (h : d.IsLegible) {r : Text} (hr : continuesUnion (marks r) = false) :
    collect declarationAt (unlines d.codeLines ++ r) =
      some (d.name, d.declared) :: collect declarationAt r := by
  have hblank (t : Text) : collect declarationAt (unlines (blankLine [] d.comment) ++ t) =
      collect declarationAt t := by
    cases d.comment with
    | none => rfl
    | some _ => exact collect_newline t
  have hn : isIdentifier d.name = true := h.name_identifier
  rw [codeLines, unlines_append, List.append_assoc, hblank]
  cases d with
  | interface comment name parents members index =>
    obtain ⟨hp, hm, hd, hi⟩ := h.body_legible
    have hbody : Nested (· != '/') (· != '/') ('\n' :: unlines (bodyLines members index)) :=
      .plain (by decide) (by decide) (nested_unlines fun l hl => nested_bodyLines hm hi hl)
    have hname : isIdentifier name = true := hn
    have heq : unlines (coreLines (.interface comment name parents members index)) ++ r =
        "export interface ".toList ++ (name ++ ' ' :: (headingText parents ++
          '\x7b' :: ('\n' :: unlines (bodyLines members index) ++ '\x7d' :: '\n' :: r))) := by
      rw [coreLines, unlines_cons, unlines_append, headingText, heritage]
      cases parents <;> simp
    rw [heq, collect_interface hname hp hbody, members_bodyLines hm hd hi]
    rfl
  | typeAlias comment name type =>
    have hname : isIdentifier name = true := hn
    have heq : unlines (coreLines (.typeAlias comment name type)) ++ r =
        "export type ".toList ++ (name ++ (" = ".toList ++ (type.render ++ '\n' :: r))) := by
      simp [coreLines]
    rw [heq, collect_alias hname h.body_legible.1.render h.body_legible.2 hr]
    rfl

end Declaration

/-! ## Files -/

section File

variable {ds : List Declaration}

private def fileLines (lines : Declaration → List Text) (ds : List Declaration) : List Text :=
  ds.flatMap fun d => [] :: lines d

private theorem join_cons_newline (t : Text) (lines : List Text) :
    join "\n" (t :: lines) = t ++ lines.flatMap ('\n' :: ·) := by
  induction lines generalizing t with
  | nil => simp
  | cons l lines ih =>
    have hsep : "\n".toList = ['\n'] := rfl
    rw [join_cons_cons, ih, List.flatMap_cons, hsep]
    simp

/-- A types file is its header and, for each declaration, an empty line and the lines of the declaration. -/
theorem renderDeclarations_eq (ds : List Declaration) :
    renderDeclarations ds = typesFileHeader ++ unlines (fileLines Declaration.lines ds) := by
  have hlines (d : Declaration) : d.lines ≠ [] := by
    cases d <;> simp [Declaration.lines]
  rw [renderDeclarations, join_cons_newline]
  congr 1
  induction ds with
  | nil => rfl
  | cons d ds ih =>
    have hrender : d.render ++ ['\n'] = unlines d.lines := by
      have hjoin := join_append_newline (hlines d) []
      rwa [List.append_nil] at hjoin
    have hlines : unlines (fileLines Declaration.lines (d :: ds)) =
        '\n' :: (d.render ++ ['\n']) ++ unlines (fileLines Declaration.lines ds) := by
      rw [fileLines, List.flatMap_cons, unlines_append, unlines_cons, ← hrender]
      rfl
    rw [List.flatMap_cons, List.flatMap_append, ih, hlines]
    simp

private theorem stripComments_header (r : Text) :
    stripComments (typesFileHeader ++ r) = '\n' :: stripComments r := by
  let body : Text := "*\n * This file is generated by swagger-typegen. Do not edit it by hand.\n "
  have heq : typesFileHeader ++ r = "/*".toList ++ body ++ "*/".toList ++ '\n' :: r := by
    have hshape : typesFileHeader = "/*".toList ++ body ++ "*/".toList ++ ['\n'] := by decide +kernel
    rw [hshape, List.append_assoc, List.singleton_append]
  have hopen : ¬"*/".toList <:+: body ++ ['*'] := by decide +kernel
  rw [heq, stripComments_block hopen, stripComments_cons (by decide) (by decide)]

private theorem continuesUnion_newline (r : Text) :
    continuesUnion (marks ('\n' :: r)) = continuesUnion (marks r) := by
  rw [marks_cons (by decide), continuesUnion, continuesUnion, List.dropWhile_cons_of_pos (by decide)]

private theorem continuesUnion_fileLines (ds : List Declaration) :
    continuesUnion (marks (unlines (fileLines Declaration.codeLines ds))) = false := by
  cases ds with
  | nil => rfl
  | cons d ds =>
    have hcore : ∃ t, unlines d.coreLines = 'e' :: t := by
      cases d <;> exact ⟨_, rfl⟩
    obtain ⟨t, ht⟩ := hcore
    have hexport (r : Text) : continuesUnion (marks (unlines d.coreLines ++ r)) = false := by
      rw [ht, List.cons_append, marks_cons (by decide), continuesUnion,
        List.dropWhile_cons_of_neg (by decide)]
      rfl
    rw [fileLines, List.flatMap_cons, unlines_append, unlines_cons, List.nil_append, List.cons_append,
      continuesUnion_newline, Declaration.codeLines, unlines_append, List.append_assoc]
    cases d.comment with
    | none => exact hexport _
    | some _ => exact (continuesUnion_newline _).trans (hexport _)

private theorem collect_fileLines (h : ∀ d ∈ ds, d.IsLegible) :
    collect declarationAt (unlines (fileLines Declaration.codeLines ds)) =
      ds.map fun d => some (d.name, d.declared) := by
  induction ds with
  | nil => rfl
  | cons d ds ih =>
    have heq : unlines (fileLines Declaration.codeLines (d :: ds)) =
        '\n' :: (unlines d.codeLines ++ unlines (fileLines Declaration.codeLines ds)) := by
      rw [fileLines, List.flatMap_cons, unlines_append, unlines_cons, List.nil_append, List.cons_append]
      rfl
    rw [heq, Declaration.collect_newline,
      Declaration.collect_codeLines (h d List.mem_cons_self) (continuesUnion_fileLines ds),
      ih fun e he => h e (List.mem_cons_of_mem _ he), List.map_cons]

/-- A types file of legible declarations, no two of one name, is read back as it was written. -/
theorem declaredTypes_renderDeclarations (h : ∀ d ∈ ds, d.IsLegible)
    (hd : (ds.map Declaration.name).Nodup) :
    declaredTypes (renderDeclarations ds) = ds.map fun d => (d.name, d.declared) := by
  have hleave : LeavesLines (fileLines Declaration.lines ds) (fileLines Declaration.codeLines ds) :=
    .flatMap fun d hmem => (LeavesLines.plain (l := []) (by simp)).append (Declaration.lines_leave (h d hmem))
  have hstrip : stripComments (renderDeclarations ds) =
      '\n' :: unlines (fileLines Declaration.codeLines ds) := by
    have hlines := hleave []
    rw [List.append_nil] at hlines
    rw [renderDeclarations_eq, stripComments_header, hlines]
    exact congrArg _ (List.append_nil _)
  have hfound : (ds.map fun d => some (d.name, d.declared)).filterMap id =
      ds.map fun d => (d.name, d.declared) := by
    rw [List.filterMap_map, ← List.filterMap_eq_map]
    rfl
  have hkeys : ((ds.map fun d => (d.name, d.declared)).map Prod.fst).Nodup := by
    rw [List.map_map]
    exact hd
  rw [declaredTypes, hstrip, Declaration.collect_newline, collect_fileLines h, hfound,
    Table.ofEntries_of_nodup hkeys]

end File

end ClientGen
