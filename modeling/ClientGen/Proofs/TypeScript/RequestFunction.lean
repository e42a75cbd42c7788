import ClientGen.Proofs.Naming
import ClientGen.Proofs.Text.Lines
import ClientGen.TypeScript.ExportedFunctions
import ClientGen.TypeScript.FunctionsFile
/-!
# The text of request functions

A legible operation is one whose request function can be read back: its literals, brackets and comments
are complete, and no line between its first and its last one looks like the beginning of a function.
-/

namespace ClientGen

open Text Source

/-- A nested text in which no comment begins. -/
abbrev Source.Uncommented (t : Text) : Prop := Nested (· != '/') (· != '/') t

/-- A nested text on one line in which no comment begins. -/
structure Source.IsCodeLine (t : Text) : Prop where
  uncommented : Uncommented t
  one_line : '\n' ∉ t

/-- Identifiers with dots between them. -/
def IsDotted (t : Text) : Prop := ∀ part ∈ splitOn '.' t, isIdentifier part = true

/-- The types of signatures: identifiers, records of any values, and arrays of these. -/
inductive IsTypeName : Text → Prop
  | identifier {t : Text} (h : isIdentifier t = true) : IsTypeName t
  | record : IsTypeName "Record<string, unknown>"
  | array {t : Text} (h : IsTypeName t) : IsTypeName (t ++ "[]")

/-- A character that may stand in the path of a request. -/
def IsPathChar (c : Char) : Prop := isQuote c = false ∧ c ≠ '\\' ∧ c ≠ '\n'

/-- What is asked of an operation for its request function to be read back. -/
structure Operation.IsLegible (o : Operation) : Prop where
  method_known : lower o.method ∈ Naming.httpMethods
  call_named : ∃ path, o.callName = Naming.callName o.method path
  path_plain : ∀ c ∈ o.cleanPath, IsPathChar c
  params_plain : ∀ p ∈ o.pathParams, '\n' ∉ p.name
  types_named : ∀ t ∈ o.signatureTypes, IsTypeName t
  summary_open : ∀ s ∈ o.summary, ¬"*/".toList <:+: s

/-! ## Lines of code -/

namespace Source.IsCodeLine

theorem append {a b : Text} (ha : IsCodeLine a) (hb : IsCodeLine b) : IsCodeLine (a ++ b) where
  uncommented := ha.uncommented.append hb.uncommented
  one_line := by
    rw [List.mem_append, not_or]
    exact ⟨ha.one_line, hb.one_line⟩

theorem join {sep : Text} {ps : List Text} (hs : IsCodeLine sep) (hp : ∀ p ∈ ps, IsCodeLine p) :
    IsCodeLine (join sep ps) where
  uncommented := Nested.join hs.uncommented fun p hm => (hp p hm).uncommented
  one_line := by
    intro hc
    rcases mem_join hc with hc | ⟨p, hm, hc⟩
    · exact hs.one_line hc
    · exact (hp p hm).one_line hc

theorem of_plain {t : Text} (h : ∀ c ∈ t, isPlain c = true ∧ c ≠ '/' ∧ c ≠ '\n') : IsCodeLine t where
  uncommented := Nested.of_plain fun c hc => ⟨(h c hc).1, by simpa using (h c hc).2.1⟩
  one_line := fun hc => (h _ hc).2.2 rfl

theorem bracketed {o c : Char} {v : Text} (ho : closer? o = some c) (hv : IsCodeLine v)
    (hl : o ≠ '\n' ∧ c ≠ '\n') : IsCodeLine (o :: v ++ [c]) where
  uncommented := Nested.bracketed ho hv.uncommented
  one_line := by
    simp only [List.cons_append, List.mem_cons, List.mem_append, List.not_mem_nil, or_false, not_or]
    exact ⟨Ne.symm hl.1, hv.one_line, Ne.symm hl.2⟩

theorem quoted {q : Char} {b : Text} (hq : isQuote q = true) (hb : ∀ c ∈ b, IsPathChar c) :
    IsCodeLine (q :: b ++ [q]) where
  uncommented := by
    refine Nested.quoted hq (LiteralBody.of_forall fun c hc => ?_)
    obtain ⟨hcq, hback, hl⟩ := hb c hc
    refine ⟨hback, ?_, fun h => absurd h hl⟩
    rintro rfl
    simp [hq] at hcq
  one_line := by
    have hqn : '\n' ≠ q := by
      rintro rfl
      exact absurd hq (by decide)
    simp only [List.cons_append, List.mem_cons, List.mem_append, List.not_mem_nil, or_false, not_or]
    exact ⟨hqn, fun hc => (hb _ hc).2.2 rfl, hqn⟩

theorem of_identChars {t : Text} (h : ∀ c ∈ t, isIdentChar c = true) : IsCodeLine t :=
  of_plain fun c hc => ⟨isPlain_of_isIdentChar (h c hc), ne_of_isIdentChar (h c hc) (by decide),
    ne_of_isIdentChar (h c hc) (by decide)⟩

end Source.IsCodeLine

theorem IsDotted.mem {t : Text} (h : IsDotted t) {c : Char} (hc : c ∈ t) :
    isIdentChar c = true ∨ c = '.' := by
  rcases mem_splitBy (· == '.') hc with hd | ⟨w, hw, hd⟩
  · exact .inr (by simpa using hd)
  · exact .inl (isIdentChar_of_mem (h w hw) c hd)

theorem IsDotted.isCodeLine {t : Text} (h : IsDotted t) : IsCodeLine t := by
  refine .of_plain fun c hc => ?_
  rcases h.mem hc with hi | rfl
  · exact ⟨isPlain_of_isIdentChar hi, ne_of_isIdentChar hi (by decide),
      ne_of_isIdentChar hi (by decide)⟩
  · decide

namespace IsTypeName

theorem mem {t : Text} (h : IsTypeName t) {c : Char} (hc : c ∈ t) :
    isIdentChar c = true ∨ c ∈ "<, >[]".toList := by
  induction h with
  | identifier h => exact .inl (isIdentChar_of_mem h c hc)
  | record =>
    revert c
    decide
  | array _ ih =>
    rcases List.mem_append.1 hc with hc | hc
    · exact ih hc
    · have hsub : ∀ d ∈ "[]".toList, d ∈ "<, >[]".toList := by decide
      exact .inr (hsub c hc)

theorem isCodeLine {t : Text} (h : IsTypeName t) : IsCodeLine t := by
  induction h with
  | identifier h => exact .of_identChars (isIdentChar_of_mem h)
  | record => exact .of_plain (by decide)
  | array _ ih => exact ih.append (.bracketed (o := '[') (v := []) rfl (.of_plain (by simp)) (by decide))

theorem keyword (k : Keyword) : IsTypeName k.render := by
  cases k <;> exact identifier (by decide)

end IsTypeName

theorem IsPathChar.of_isIdentChar {c : Char} (h : isIdentChar c = true) : IsPathChar c := by
  refine ⟨?_, ne_of_isIdentChar h (by decide), ne_of_isIdentChar h (by decide)⟩
  have hp := isPlain_of_isIdentChar h
  simp only [isPlain, Bool.and_eq_true, Bool.not_eq_true'] at hp
  exact hp.1.1

namespace Operation

variable {o : Operation}

/-! ## The path of a request -/

private theorem forall_mem_interpolation {P : Char → Prop} (hsign : ∀ c ∈ "$\x7b\x7d".toList, P c) {p : Parameter}
    (hp : ∀ c ∈ Naming.paramIdentifier p.name, P c) : ∀ c ∈ interpolation p, P c := by
  have hbrace : ∀ w ∈ ["$\x7b".toList, "\x7d".toList], ∀ c ∈ w, c ∈ "$\x7b\x7d".toList := by decide
  intro c hc
  simp only [interpolation, List.mem_append] at hc
  rcases hc with (hc | hc) | hc
  · exact hsign c (hbrace _ (by simp) c hc)
  · exact hp c hc
  · exact hsign c (hbrace _ (by simp) c hc)

/-- What holds for the characters of a path and of identifiers holds when parameters are put in. -/
theorem forall_mem_interpolated {P : Char → Prop} (hsign : ∀ c ∈ "$\x7b\x7d".toList, P c) {ps : List Parameter}
    (hp : ∀ p ∈ ps, ∀ c ∈ Naming.paramIdentifier p.name, P c) {path : Text} (h : ∀ c ∈ path, P c) :
    ∀ c ∈ ps.foldl interpolate path, P c := by
  induction ps generalizing path with
  | nil => exact h
  | cons p ps ih =>
    have hin := forall_mem_interpolation hsign (hp p List.mem_cons_self)
    refine ih (fun q hq => hp q (List.mem_cons_of_mem _ hq)) ?_
    refine forall_mem_substitute ?_ (forall_mem_replace hin h)
    intro t out n hstep
    split at hstep
    · split at hstep
      · cases hstep
      · cases hstep
        exact hin
    · cases hstep

theorem IsLegible.requestPath_literal (h : o.IsLegible) :
    ∃ q path, o.requestPath = q :: path ++ [q] ∧ isQuote q = true ∧ ∀ c ∈ path, IsPathChar c := by
  have hsign : ∀ c ∈ "$\x7b\x7d".toList, isQuote c = false ∧ c ≠ '\\' ∧ c ≠ '\n' := by decide
  refine ⟨if o.pathParams.isEmpty then '\'' else '\x60', _, rfl, ?_,
    forall_mem_interpolated hsign (fun p hp c hc => ?_) h.path_plain⟩
  · split <;> decide
  · exact IsPathChar.of_isIdentChar (Naming.isIdentChar_of_mem_paramIdentifier (h.params_plain p hp) c hc)

theorem IsLegible.requestPath_isCodeLine (h : o.IsLegible) : IsCodeLine o.requestPath := by
  obtain ⟨q, path, he, hq, hpath⟩ := h.requestPath_literal
  exact he ▸ .quoted hq hpath

/-! ## The signature -/

theorem named?_eq_some_iff {t : Option Text} {s : Text} : named? t = some s ↔ t = some s ∧ s ≠ [] := by
  simp [named?, Option.filter_eq_some_iff]

theorem IsLegible.type_of_mem (h : o.IsLegible) {t : Text} {f : Option Text}
    (hf : f ∈ [o.paramsType, o.bodyType, o.responseType]) (ht : named? f = some t) : IsTypeName t :=
  h.types_named t (List.mem_filterMap.2 ⟨f, hf, ht⟩)

theorem IsLegible.response_named (h : o.IsLegible) :
    IsTypeName ((named? o.responseType).getD "unknown") := by
  cases hr : named? o.responseType with
  | none => exact .identifier (by decide)
  | some t => exact h.type_of_mem (by simp) hr

theorem IsLegible.signature_mem (h : o.IsLegible) {e : Text} (he : e ∈ o.signature) :
    ∃ a t, e = a ++ t ∧ IsTypeName t ∧ ∀ c ∈ a, isIdentChar c = true ∨ c = ':' ∨ c = ' ' := by
  have hword : ∀ w ∈ ["data: ".toList, "params: ".toList], ∀ c ∈ w,
      isIdentChar c = true ∨ c = ':' ∨ c = ' ' := by decide
  simp only [signature, List.mem_append, List.mem_map, Option.mem_toList, Option.map_eq_some_iff] at he
  rcases he with (⟨p, hp, rfl⟩ | ⟨t, ht, rfl⟩) | ⟨t, ht, rfl⟩
  · refine ⟨_, _, rfl, .keyword _, fun c hc => ?_⟩
    rcases List.mem_append.1 hc with hc | hc
    · exact .inl (Naming.isIdentChar_of_mem_paramIdentifier (h.params_plain p hp) c hc)
    · exact .inr (by simpa using hc)
  · exact ⟨_, _, rfl, h.type_of_mem (by simp) ht, hword _ (by simp)⟩
  · exact ⟨_, _, rfl, h.type_of_mem (by simp) ht, hword _ (by simp)⟩

theorem IsLegible.signature_isCodeLine (h : o.IsLegible) : IsCodeLine (join ", " o.signature) := by
  refine .join (.of_plain (by decide)) fun e he => ?_
  obtain ⟨a, t, rfl, ht, ha⟩ := h.signature_mem he
  refine (IsCodeLine.of_plain fun c hc => ?_).append ht.isCodeLine
  rcases ha c hc with hi | rfl | rfl
  · exact ⟨isPlain_of_isIdentChar hi, ne_of_isIdentChar hi (by decide),
      ne_of_isIdentChar hi (by decide)⟩
  · decide
  · decide

/-! ## The call of the client -/

/-- The lines between the first and the last line of the code of a request function. -/
def callLines (settings : Settings) (o : Operation) : List Text :=
  let response := (named? o.responseType).getD "unknown"
  match settings.requestStyle with
  | .chain => chainCall settings.requestClient o response
  | .object => objectCall settings.requestClient o response

/-- The text between the first and the last line of the code of a request function. -/
def callText (settings : Settings) (o : Operation) : Text := join "\n" (o.callLines settings)

/-- A line that does not begin with the word of an export. -/
def IsQuiet (l : Text) : Prop := (skipMargin l).head? ≠ some 'e'

theorem IsLegible.isIdentChar_of_mem_method (h : o.IsLegible) :
    ∀ c ∈ lower o.method, isIdentChar c = true :=
  isIdentChar_of_mem (Naming.isIdentifier_of_mem_httpMethods _ h.method_known)

private theorem isCodeLine_method (h : o.IsLegible) : IsCodeLine (lower o.method) :=
  .of_identChars h.isIdentChar_of_mem_method

def chainArguments (o : Operation) : List Text :=
  let data : List Text :=
    if !isReadMethod (lower o.method) && (named? o.bodyType).isSome then ["data".toList] else []
  let params : List Text := if (named? o.paramsType).isSome then ["\x7b params \x7d".toList] else []
  o.requestPath :: data ++ params

private theorem isCodeLine_chainArguments (h : o.IsLegible) :
    IsCodeLine (join ", " o.chainArguments) := by
  refine .join (.of_plain (by decide)) fun e he => ?_
  simp only [chainArguments, List.cons_append, List.mem_cons, List.mem_append,
    List.mem_ite_nil_right, List.not_mem_nil, or_false] at he
  rcases he with rfl | ⟨-, rfl⟩ | ⟨-, rfl⟩
  · exact h.requestPath_isCodeLine
  · exact .of_plain (by decide)
  · exact .bracketed (o := '\x7b') (v := " params ") rfl (.of_plain (by decide)) (by decide)

private theorem chainCall_shape (h : o.IsLegible) {client response : Text} (hc : IsDotted client)
    (hr : IsTypeName response) :
    ∃ line : Text, chainCall client o response = ["  return " ++ line] ∧ IsCodeLine line := by
  have heq : chainCall client o response = ["  return " ++ client ++ "." ++ lower o.method ++ "<" ++
      response ++ ">(" ++ join ", " o.chainArguments ++ ")"] := rfl
  have hargs := IsCodeLine.bracketed (o := '(') rfl (isCodeLine_chainArguments h) (by decide)
  have hline := hc.isCodeLine.append <| (IsCodeLine.of_plain (t := ".") (by decide)).append <|
    (isCodeLine_method h).append <| (IsCodeLine.of_plain (t := "<") (by decide)).append <|
    hr.isCodeLine.append <| (IsCodeLine.of_plain (t := ">") (by decide)).append hargs
  refine ⟨_, ?_, hline⟩
  rw [heq]
  simp

/-- The entries of the object that the client is called with. -/
def objectEntries (o : Operation) : List Text :=
  ["    url: " ++ o.requestPath, "    method: '" ++ lower o.method ++ "'"] ++
    (if (named? o.bodyType).isSome then ["    data".toList] else []) ++
    (if (named? o.paramsType).isSome then ["    params".toList] else [])

private theorem isQuiet_of_margin {n : Nat} {c : Char} (hc : c ≠ 'e' ∧ c ≠ ' ' ∧ c ≠ '\t') (t : Text) :
    IsQuiet (List.replicate n ' ' ++ c :: t) := by
  have hskip : skipMargin (List.replicate n ' ' ++ c :: t) = c :: t := by
    rw [skipMargin, List.dropWhile_append_of_pos (by simp)]
    simp [hc]
  simp [IsQuiet, hskip, hc.1]

private theorem objectEntries_mem {e : Text} (he : e ∈ o.objectEntries) (h : o.IsLegible) :
    IsCodeLine e ∧ ∀ t, IsQuiet (e ++ t) := by
  have hurl (x t : Text) : IsQuiet ("    url: " ++ x ++ t) := isQuiet_of_margin (n := 4) (by decide) _
  have hmethod (x t : Text) : IsQuiet ("    method: '" ++ x ++ "'" ++ t) :=
    isQuiet_of_margin (n := 4) (by decide) _
  have hdata (t : Text) : IsQuiet ("    data" ++ t) := isQuiet_of_margin (n := 4) (by decide) _
  have hparams (t : Text) : IsQuiet ("    params" ++ t) := isQuiet_of_margin (n := 4) (by decide) _
  simp only [objectEntries, List.mem_append, List.mem_cons, List.mem_ite_nil_right,
    List.not_mem_nil, or_false] at he
  rcases he with ((rfl | rfl) | ⟨-, rfl⟩) | ⟨-, rfl⟩
  · exact ⟨.append (.of_plain (by decide)) h.requestPath_isCodeLine, hurl _⟩
  · have hverb : ∀ c ∈ lower o.method, IsPathChar c := fun c hc =>
      .of_isIdentChar <| isIdentChar_of_mem
        (Naming.isIdentifier_of_mem_httpMethods _ h.method_known) c hc
    have hlit := IsCodeLine.quoted (q := '\'') rfl hverb
    have heq : "    method: '" ++ lower o.method ++ "'" =
        "    method: " ++ ('\'' :: lower o.method ++ ['\'']) := by simp
    refine ⟨?_, hmethod _⟩
    rw [heq]
    exact (IsCodeLine.of_plain (t := "    method: ") (by decide)).append hlit
  · exact ⟨.of_plain (by decide), hdata⟩
  · exact ⟨.of_plain (by decide), hparams⟩

private theorem forall_isQuiet_join {es : List Text}
    (h : ∀ e ∈ es, '\n' ∉ e ∧ ∀ t, IsQuiet (e ++ t)) (hne : es ≠ []) :
    ∀ l ∈ splitOn '\n' (join ",\n" es), IsQuiet l := by
  induction es with
  | nil => exact absurd rfl hne
  | cons e es ih =>
    obtain ⟨hl, hq⟩ := h e List.mem_cons_self
    cases es with
    | nil =>
      rw [join_singleton, splitOn_of_notMem hl]
      simpa using hq []
    | cons e' es =>
      have ih := ih (fun d hd => h d (List.mem_cons_of_mem _ hd)) (List.cons_ne_nil _ _)
      have hsplit : join ",\n" (e :: e' :: es) = (e ++ [',']) ++ '\n' :: join ",\n" (e' :: es) := by
        rw [join_cons_cons]
        simp
      have hcomma : '\n' ∉ e ++ [','] := by simpa using hl
      rw [hsplit, splitOn_append_cons_of_notMem hcomma]
      intro l hm
      rcases List.mem_cons.1 hm with rfl | hm
      · exact hq [',']
      · exact ih l hm

private theorem objectCall_shape {client response : Text} (hc : IsDotted client)
    (hr : IsTypeName response) :
    ∃ line : Text, join "\n" (objectCall client o response) = ("  return " ++ line ++ "(\x7b") ++
      '\n' :: (join ",\n" o.objectEntries ++ '\n' :: "  \x7d)") ∧ IsCodeLine line := by
  have heq : objectCall client o response = ["  return " ++ client ++ "<" ++ response ++ ">(\x7b",
      join ",\n" o.objectEntries, "  \x7d)"] := rfl
  have hline := hc.isCodeLine.append <| (IsCodeLine.of_plain (t := "<") (by decide)).append <|
    hr.isCodeLine.append (IsCodeLine.of_plain (t := ">") (by decide))
  refine ⟨_, ?_, hline⟩
  rw [heq, join_cons_cons, join_cons_cons, join_singleton]
  simp

theorem IsLegible.callText_uncommented (h : o.IsLegible) {settings : Settings}
    (hc : IsDotted settings.requestClient) : Uncommented (o.callText settings) := by
  have hreturn : Uncommented "  return ".toList := (IsCodeLine.of_plain (by decide)).uncommented
  unfold callText callLines
  cases settings.requestStyle with
  | chain =>
    obtain ⟨line, heq, hline⟩ := chainCall_shape h hc h.response_named
    dsimp only
    rw [heq, join_singleton]
    exact hreturn.append hline.uncommented
  | object =>
    obtain ⟨line, heq, hline⟩ := objectCall_shape (o := o) hc h.response_named
    dsimp only
    rw [heq]
    have hsep : Uncommented ",\n".toList := Nested.of_plain (by decide)
    have hnl : Uncommented ['\n'] := Nested.of_plain (by decide)
    have hend : Uncommented "\n  ".toList := Nested.of_plain (by decide)
    have hentries := Nested.join hsep fun e he => (objectEntries_mem he h).1.uncommented
    have hinside := (hnl.append hentries).append hend
    have hbraces : Uncommented _ := Nested.bracketed (o := '\x7b') rfl hinside
    have hbrackets : Uncommented _ := Nested.bracketed (o := '(') rfl hbraces
    have hcall := (hreturn.append hline.uncommented).append hbrackets
    simpa using hcall

theorem IsLegible.callText_quiet (h : o.IsLegible) {settings : Settings}
    (hc : IsDotted settings.requestClient) :
    ∀ l ∈ splitOn '\n' (o.callText settings), IsQuiet l := by
  have hreturn (t : Text) : IsQuiet ("  return " ++ t) := isQuiet_of_margin (n := 2) (by decide) _
  unfold callText callLines
  cases settings.requestStyle with
  | chain =>
    obtain ⟨line, heq, hline⟩ := chainCall_shape h hc h.response_named
    dsimp only
    have hl : '\n' ∉ "  return " ++ line := by simpa using hline.one_line
    rw [heq, join_singleton, splitOn_of_notMem hl]
    simpa using hreturn line
  | object =>
    obtain ⟨line, heq, hline⟩ := objectCall_shape (o := o) hc h.response_named
    dsimp only
    have hl : '\n' ∉ "  return " ++ line ++ "(\x7b" := by simpa using hline.one_line
    have hend : IsQuiet "  \x7d)" := isQuiet_of_margin (n := 2) (by decide) _
    rw [heq, splitOn_append_cons_of_notMem hl, splitOn_append_cons]
    intro l hm
    rw [List.mem_cons, List.mem_append] at hm
    rcases hm with rfl | hm | hm
    · rw [List.append_assoc]
      exact hreturn _
    · refine forall_isQuiet_join (fun e he => ?_) (List.cons_ne_nil _ _) l hm
      obtain ⟨hcode, hq⟩ := objectEntries_mem he h
      exact ⟨hcode.one_line, hq⟩
    · rw [splitOn_of_notMem (by decide), List.mem_singleton] at hm
      exact hm ▸ hend

/-! ## The whole function -/

/-- The first line of the code of a request function. -/
def headLine (o : Operation) : Text :=
  "export const " ++ o.callName ++ " = (" ++ join ", " o.signature ++ ") => \x7b"

/-- The code of a request function, without its comment. -/
def functionCode (settings : Settings) (o : Operation) : Text :=
  o.headLine ++ '\n' :: (o.callText settings ++ '\n' :: "\x7d")

private theorem callLines_ne_nil (settings : Settings) (o : Operation) : o.callLines settings ≠ [] := by
  unfold callLines
  cases settings.requestStyle with
  | chain => exact List.cons_ne_nil _ _
  | object => exact List.cons_ne_nil _ _

theorem renderFunction_eq (settings : Settings) (o : Operation) :
    o.renderFunction settings =
      (match named? o.summary with
        | some s => "/** ".toList ++ collapse s ++ " */".toList ++ ['\n']
        | none => []) ++ o.functionCode settings := by
  have hlines : o.functionLines settings =
      o.summaryLine ++ o.headLine :: (o.callLines settings ++ [['\x7d']]) := by
    unfold functionLines callLines
    dsimp only
    rw [List.append_assoc, List.append_assoc]
    rfl
  have hbody : join "\n" (o.callLines settings ++ [['\x7d']]) = o.callText settings ++ '\n' :: "\x7d" := by
    rw [join_append (callLines_ne_nil settings o) (List.cons_ne_nil _ _), callText]
    simp
  have hcode : join "\n" (o.headLine :: (o.callLines settings ++ [['\x7d']])) =
      o.functionCode settings := by
    rw [join_cons (List.append_ne_nil_of_right_ne_nil _ (List.cons_ne_nil _ _)), hbody, functionCode]
    simp
  rw [renderFunction, hlines, summaryLine]
  cases named? o.summary with
  | none => rw [List.nil_append, hcode, List.nil_append]
  | some s =>
    rw [join_append (List.cons_ne_nil _ _) (List.cons_ne_nil _ _), hcode]
    simp

/-- The text behind the parameter list of a request function: its body in braces. -/
theorem functionCode_eq (settings : Settings) (o : Operation) :
    o.functionCode settings = "export const " ++ o.callName ++ " = " ++
      ('(' :: join ", " o.signature ++ [')']) ++ " => " ++
      ('\x7b' :: ('\n' :: (o.callText settings ++ ['\n'])) ++ ['\x7d']) := by
  unfold functionCode headLine
  simp

theorem IsLegible.callName_identifier (h : o.IsLegible) : isIdentifier o.callName = true := by
  obtain ⟨path, hp⟩ := h.call_named
  rw [hp]
  exact Naming.isIdentifier_callName h.method_known

def headSigns : Text := [' ', '=', '(', ',', ':', '<', '>', '[', ']', ')', '\x7b']

theorem IsLegible.mem_headLine (h : o.IsLegible) {c : Char} (hc : c ∈ o.headLine) :
    isIdentChar c = true ∨ c ∈ headSigns := by
  have hexport : ∀ c ∈ "export const ".toList, isIdentChar c = true ∨ c ∈ headSigns := by decide
  have hopen : ∀ c ∈ " = (".toList, c ∈ headSigns := by decide
  have hcomma : ∀ c ∈ ", ".toList, c ∈ headSigns := by decide
  have hclose : ∀ c ∈ ") => \x7b".toList, c ∈ headSigns := by decide
  have htype : ∀ c ∈ "<, >[]".toList, c ∈ headSigns := by decide
  unfold headLine at hc
  rcases List.mem_append.1 hc with hc | hc
  · rcases List.mem_append.1 hc with hc | hc
    · rcases List.mem_append.1 hc with hc | hc
      · rcases List.mem_append.1 hc with hc | hc
        · exact hexport c hc
        · exact .inl (isIdentChar_of_mem h.callName_identifier c hc)
      · exact .inr (hopen c hc)
    rcases mem_join hc with hc | ⟨e, he, hc⟩
    · exact .inr (hcomma c hc)
    obtain ⟨a, t, rfl, ht, ha⟩ := h.signature_mem he
    rcases List.mem_append.1 hc with hc | hc
    · rcases ha c hc with hc | rfl | rfl
      · exact .inl hc
      · exact .inr (by decide)
      · exact .inr (by decide)
    · exact (ht.mem hc).imp_right (htype c)
  · exact .inr (hclose c hc)

theorem IsLegible.headLine_line (h : o.IsLegible) : '\n' ∉ o.headLine := by
  have hname := (IsCodeLine.of_identChars (isIdentChar_of_mem h.callName_identifier)).one_line
  unfold headLine
  simpa [hname] using h.signature_isCodeLine.one_line

theorem IsLegible.body_uncommented (h : o.IsLegible) {settings : Settings}
    (hc : IsDotted settings.requestClient) :
    Uncommented ('\n' :: (o.callText settings ++ ['\n'])) := by
  have hnl : Uncommented ['\n'] := Nested.of_plain (by decide)
  exact (hnl.append ((h.callText_uncommented hc).append hnl))

/-- Of a request function only the comment is removed; its line stays, empty. -/
theorem IsLegible.stripComments_renderFunction (h : o.IsLegible) {settings : Settings}
    (hc : IsDotted settings.requestClient) (r : Text) :
    stripComments (o.renderFunction settings ++ r) =
      (if (named? o.summary).isSome then ['\n'] else []) ++ o.functionCode settings ++
        stripComments r := by
  have hname : Uncommented o.callName :=
    (IsCodeLine.of_identChars (isIdentChar_of_mem h.callName_identifier)).uncommented
  have hexport : Uncommented "export const ".toList := Nested.of_plain (by decide)
  have hequals : Uncommented " = ".toList := Nested.of_plain (by decide)
  have harrow : Uncommented " => ".toList := Nested.of_plain (by decide)
  have hcode : Uncommented (o.functionCode settings) := by
    rw [functionCode_eq]
    exact ((((hexport.append hname).append hequals).append
      (Nested.bracketed rfl h.signature_isCodeLine.uncommented)).append harrow).append
      (Nested.bracketed rfl (h.body_uncommented hc))
  rw [renderFunction_eq]
  cases hs : named? o.summary with
  | none => simp [stripComments_nested hcode (by decide) (by decide)]
  | some s =>
    have hopen : ¬"*/".toList <:+: collapse s := fun hi =>
      h.summary_open s (named?_eq_some_iff.1 hs).1 (infix_of_infix_collapse (by decide) (by decide) hi)
    have hcomment := stripComments_comment hopen (r := '\n' :: (o.functionCode settings ++ r))
    have hline := stripComments_cons (c := '\n') (r := o.functionCode settings ++ r) (by decide)
      (by decide)
    rw [stripComments_nested hcode (by decide) (by decide)] at hline
    simpa [hline] using hcomment

end Operation

/-- Request functions with a blank line behind each. -/
def functionsText (settings : Settings) (operations : List Operation) : Text :=
  operations.flatMap fun o => o.renderFunction settings ++ "\n\n"

end ClientGen
