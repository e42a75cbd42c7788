import ClientGen.Proofs.TypeScript.RequestFunction
import ClientGen.Proofs.TypeScript.Words
/-!
# Request functions read back

The search for exported functions finds every legible request function at its first line, passes over the
lines of its body, and finds nothing else.
-/

namespace ClientGen.Source

open Text

/-! ## Beginnings of lines -/

private theorem afterWord?_export_of_quiet {l : Text} (h : Operation.IsQuiet l) (r : Text) :
    afterWord? "export" (skipMargin (l ++ '\n' :: r)) = none := by
  have hexport : "export".toList = 'e' :: "xport".toList := by simp
  have hskip : ∃ c t, skipMargin (l ++ '\n' :: r) = c :: t ∧ 'e' ≠ c := by
    unfold Operation.IsQuiet skipMargin at h
    unfold skipMargin
    rw [List.dropWhile_append]
    cases hl : l.dropWhile fun c => decide (c = ' ') || decide (c = '\t') with
    | nil => exact ⟨'\n', r, by simp, by decide⟩
    | cons c t =>
      rw [hl] at h
      exact ⟨c, t ++ '\n' :: r, by simp, fun he => h (by simp [← he])⟩
  obtain ⟨c, t, hs, hc⟩ := hskip
  rw [hs, hexport, afterWord?_cons_of_ne hc]

theorem constantHead?_of_quiet {l : Text} (h : Operation.IsQuiet l) (r : Text) :
    constantHead? (l ++ '\n' :: r) = none := by
  simp only [constantHead?, afterWord?_export_of_quiet h]
  rfl

theorem functionHead?_of_quiet {l : Text} (h : Operation.IsQuiet l) (r : Text) :
    functionHead? (l ++ '\n' :: r) = none := by
  simp only [functionHead?, afterWord?_export_of_quiet h]
  rfl

private theorem afterWord?_export_const (t : Text) :
    afterWord? "export" (skipMargin ("export const ".toList ++ t)) = some ("const ".toList ++ t) :=
  afterWord?_export ("const ".toList ++ t) (trimStart_cons (by decide) _)

theorem functionHead?_of_constant (t : Text) : functionHead? ("export const ".toList ++ t) = none := by
  have hasync : afterWord? "async" ("const ".toList ++ t) = none := afterWord?_cons_of_ne (by decide) _ _
  have hfunction : afterWord? "function" ("const ".toList ++ t) = none :=
    afterWord?_cons_of_ne (by decide) _ _
  simp only [functionHead?, afterWord?_export_const, Option.bind_eq_bind, Option.bind_some, hasync,
    Option.getD_none, hfunction, Option.bind_none]

theorem constantHead?_of_identifier {n : Text} (hn : isIdentifier n = true) (t : Text) :
    constantHead? ("export const ".toList ++ (n ++ (" = (".toList ++ t))) = some ⟨n, '(' :: t⟩ := by
  have hconst : afterWord? "const" ("const ".toList ++ (n ++ (" = (".toList ++ t))) =
      some (n ++ (" = (".toList ++ t)) := by
    have hsplit : "const ".toList ++ (n ++ (" = (".toList ++ t)) =
        "const".toList ++ ' ' :: (n ++ (" = (".toList ++ t)) := by simp
    rw [hsplit, afterWord?_append (by decide), trimStart_identifier hn]
  have hname : nameAt? (n ++ (" = (".toList ++ t)) = some (n, " = (".toList ++ t) :=
    nameAt?_identifier hn (by simp [isNameChar]; decide)
  have hequals : afterStart? ['='] (trimStart (" = (".toList ++ t)) = some (" (".toList ++ t) := by
    simp [trimStart, afterStart?, show isBlank ' ' = true by decide, show isBlank '=' = false by decide]
  have hopen : trimStart (" (".toList ++ t) = '(' :: t := by
    simp [trimStart, show isBlank ' ' = true by decide, show isBlank '(' = false by decide]
  have hasync : afterStart? "async" ('(' :: t) = none := by simp [afterStart?]
  have hparenthesis : fromParenthesis? ('(' :: t) = some ('(' :: t) := by
    simp [fromParenthesis?, startsWith, afterStart?]
  simp only [constantHead?, afterWord?_export_const, Option.bind_eq_bind, Option.bind_some, hconst, hname,
    hequals, hopen, hasync, Option.map_none, Option.getD_none, hparenthesis]
  rfl

/-! ## Ends of functions -/

private theorem drop_behind (o : Char) (v t : Text) : (o :: (v ++ t)).drop (v.length + 1) = t := by
  rw [List.drop_succ_cons, List.drop_left]

theorem afterClose?_nested {o c : Char} {v : Text} (ho : closer? o = some c) (hv : Uncommented v)
    (r : Text) : afterClose? (o :: (v ++ c :: r)) = some r := by
  have hdrop : (o :: (v ++ c :: r)).drop (v.length + 1 + 1) = r := by
    rw [← List.drop_drop, drop_behind, List.drop_succ_cons, List.drop_zero]
  rw [afterClose?, matchingClose?_nested ho hv, Option.map_some, hdrop]

theorem afterArrow?_nested {params body : Text} (hp : Uncommented params) (hb : Uncommented body)
    (r : Text) :
    afterArrow? ('(' :: (params ++ ')' :: (" => ".toList ++ '\x7b' :: (body ++ '\x7d' :: r)))) =
      some r := by
  let rest : Text := " => ".toList ++ '\x7b' :: (body ++ '\x7d' :: r)
  have hclose : matchingClose? ('(' :: (params ++ ')' :: rest)) 0 = some (params.length + 1) :=
    matchingClose?_nested (o := '(') rfl hp
  have hcut : cut? "=>" (')' :: rest) = some (") ".toList, ' ' :: '\x7b' :: (body ++ '\x7d' :: r)) := by
    simp [rest, cut?, afterStart?]
  have hbody : trimStart (' ' :: '\x7b' :: (body ++ '\x7d' :: r)) = '\x7b' :: (body ++ '\x7d' :: r) := by
    simp [trimStart, show isBlank ' ' = true by decide, show isBlank '\x7b' = false by decide]
  have hbrace : startsWith ['\x7b'] ('\x7b' :: (body ++ '\x7d' :: r)) = true := by
    simp [startsWith, afterStart?]
  change afterArrow? ('(' :: (params ++ ')' :: rest)) = some r
  simp only [afterArrow?, hclose, Option.bind_eq_bind, Option.bind_some, drop_behind, hcut, hbody,
    hbrace, if_true]
  exact afterClose?_nested rfl hb r

/-! ## Whole functions -/

theorem functionAt_isLinewise (head? : Text → Option FunctionHead) (after? : Text → Option Text) :
    IsLinewise (functionAt head? after?) := by
  intro before t hb
  simp [functionAt, hb]

theorem functionAt_of_none {head? : Text → Option FunctionHead} (after? : Text → Option Text)
    {t : Text} (h : head? t = none) : functionAt head? after? '\n' t = none := by
  simp [functionAt, h]

end ClientGen.Source

namespace ClientGen

open Text Source

variable {settings : Settings}

namespace Operation

variable {o : Operation}

private theorem trim_functionCode (settings : Settings) (o : Operation) :
    trim (o.functionCode settings) = o.functionCode settings := by
  have hends : ∃ t, o.functionCode settings = 'e' :: t ++ ['\x7d'] := by
    refine ⟨"xport const ".toList ++ (o.callName ++ " = ".toList) ++
      ('(' :: (join ", " o.signature ++ ')' :: (" => ".toList ++ '\x7b' ::
        ('\n' :: (o.callText settings ++ ['\n']))))), ?_⟩
    simp [functionCode_eq]
  obtain ⟨t, ht⟩ := hends
  rw [ht, trim_of_ends (by decide) (by decide)]

theorem IsLegible.functionAt_functionCode (h : o.IsLegible) (hc : IsDotted settings.requestClient)
    (r : Text) :
    functionAt constantHead? afterArrow? '\n' (o.functionCode settings ++ r) =
      some (some (o.callName, o.functionCode settings),
        ("export const ".toList ++ o.callName ++ " = ".toList).length + 1) := by
  let rest : Text := join ", " o.signature ++ ')' :: (" => ".toList ++ '\x7b' ::
    ('\n' :: (o.callText settings ++ ['\n']) ++ '\x7d' :: r))
  have heq : o.functionCode settings ++ r =
      "export const ".toList ++ (o.callName ++ (" = (".toList ++ rest)) := by
    simp [functionCode_eq, rest]
  have hhead := constantHead?_of_identifier h.callName_identifier rest
  have hafter : afterArrow? ('(' :: rest) = some r :=
    afterArrow?_nested h.signature_isCodeLine.uncommented (h.body_uncommented hc) r
  have htext : (o.functionCode settings ++ r).take
      ((o.functionCode settings ++ r).length - r.length) = o.functionCode settings := by
    rw [List.length_append, Nat.add_sub_cancel, List.take_left]
  have hlength : (o.functionCode settings ++ r).length - ('(' :: rest).length =
      ("export const ".toList ++ o.callName ++ " = ".toList).length := by
    have hsplit : o.functionCode settings ++ r =
        ("export const ".toList ++ o.callName ++ " = ".toList) ++ '(' :: rest := by simp [heq]
    rw [hsplit, List.length_append, Nat.add_sub_cancel]
  rw [← heq] at hhead
  simp only [functionAt, ne_eq, not_true_eq_false, if_false, hhead, Option.map_some, hafter, htext,
    trim_functionCode, hlength]

private theorem collect_functionCode (h : o.IsLegible) (hc : IsDotted settings.requestClient)
    (r : Text) :
    collect (functionAt constantHead? afterArrow?) (o.functionCode settings ++ '\n' :: '\n' :: r) =
      some (o.callName, o.functionCode settings) ::
        collect (functionAt constantHead? afterArrow?) r := by
  have hs := functionAt_isLinewise constantHead? afterArrow?
  have hquiet {l : Text} (hl : IsQuiet l) (r : Text) :
      functionAt constantHead? afterArrow? '\n' (l ++ '\n' :: r) = none :=
    functionAt_of_none _ (constantHead?_of_quiet hl r)
  have hfound := h.functionAt_functionCode hc ('\n' :: '\n' :: r)
  have heq : o.functionCode settings ++ '\n' :: '\n' :: r =
      ("export const ".toList ++ o.callName ++ " = ".toList) ++ '(' ::
        ((join ", " o.signature ++ ") => \x7b".toList) ++ '\n' ::
          (o.callText settings ++ '\n' :: ("\x7d".toList ++ '\n' :: ([] ++ '\n' :: r)))) := by
    simp [functionCode_eq]
  have hline : '\n' ∉ join ", " o.signature ++ ") => \x7b".toList := by
    simpa using h.signature_isCodeLine.one_line
  rw [heq] at hfound ⊢
  rw [collect_found hs (by decide) hline hfound,
    collect_text hs fun l hl r => hquiet (h.callText_quiet hc l hl) r,
    collect_line hs (by decide) (hquiet (by simp [IsQuiet, skipMargin]) _),
    collect_line hs (by decide) (hquiet (by simp [IsQuiet, skipMargin]) _)]

private theorem collect_functionHead (h : o.IsLegible) (hc : IsDotted settings.requestClient)
    (r : Text) :
    collect (functionAt functionHead? afterBody?) (o.functionCode settings ++ '\n' :: '\n' :: r) =
      collect (functionAt functionHead? afterBody?) r := by
  have hs := functionAt_isLinewise functionHead? afterBody?
  have hquiet {l : Text} (hl : IsQuiet l) (r : Text) :
      functionAt functionHead? afterBody? '\n' (l ++ '\n' :: r) = none :=
    functionAt_of_none _ (functionHead?_of_quiet hl r)
  have heq : o.functionCode settings ++ '\n' :: '\n' :: r = o.headLine ++ '\n' ::
      (o.callText settings ++ '\n' :: ("\x7d".toList ++ '\n' :: ([] ++ '\n' :: r))) := by
    simp [functionCode]
  have hhead (r : Text) : functionAt functionHead? afterBody? '\n' (o.headLine ++ r) = none := by
    refine functionAt_of_none _ ?_
    unfold headLine
    simp only [List.append_assoc]
    exact functionHead?_of_constant _
  rw [heq, collect_line hs h.headLine_line (hhead _),
    collect_text hs fun l hl r => hquiet (h.callText_quiet hc l hl) r,
    collect_line hs (by decide) (hquiet (by simp [IsQuiet, skipMargin]) _),
    collect_line hs (by decide) (hquiet (by simp [IsQuiet, skipMargin]) _)]

end Operation

private theorem stripComments_functionsText_cons {o : Operation} (h : o.IsLegible)
    (hc : IsDotted settings.requestClient) (operations : List Operation) :
    stripComments (functionsText settings (o :: operations)) =
      (if (Operation.named? o.summary).isSome then ['\n'] else []) ++ (o.functionCode settings ++
        '\n' :: '\n' :: stripComments (functionsText settings operations)) := by
  have hlines : stripComments ('\n' :: '\n' :: functionsText settings operations) =
      '\n' :: '\n' :: stripComments (functionsText settings operations) := by
    rw [stripComments_cons (by decide) (by decide), stripComments_cons (by decide) (by decide)]
  have heq : functionsText settings (o :: operations) =
      o.renderFunction settings ++ '\n' :: '\n' :: functionsText settings operations := by
    simp [functionsText]
  rw [heq, h.stripComments_renderFunction hc, hlines, List.append_assoc]

private theorem collect_newline {head? : Text → Option FunctionHead} (after? : Text → Option Text)
    (hblank : ∀ r, head? ('\n' :: r) = none) (r : Text) :
    collect (functionAt head? after?) ('\n' :: r) = collect (functionAt head? after?) r :=
  collect_line (functionAt_isLinewise _ _) (l := []) (by simp) (functionAt_of_none _ (hblank r))

private theorem constantHead?_newline (r : Text) : constantHead? ('\n' :: r) = none :=
  constantHead?_of_quiet (l := []) (by simp [Operation.IsQuiet, skipMargin]) r

private theorem functionHead?_newline (r : Text) : functionHead? ('\n' :: r) = none :=
  functionHead?_of_quiet (l := []) (by simp [Operation.IsQuiet, skipMargin]) r

/-- What stands in a text of request functions is what stands in each of them. -/
private theorem collect_functionsText {operations : List Operation} (h : ∀ o ∈ operations, o.IsLegible)
    (hc : IsDotted settings.requestClient) (head? : Text → Option FunctionHead) (after? : Text → Option Text)
    (found : Operation → List (Option (Text × Text))) (hblank : ∀ r, head? ('\n' :: r) = none)
    (hone : ∀ o : Operation, o.IsLegible → ∀ r,
      collect (functionAt head? after?) (o.functionCode settings ++ '\n' :: '\n' :: r) =
        found o ++ collect (functionAt head? after?) r) :
    collect (functionAt head? after?) (stripComments ('\n' :: '\n' :: functionsText settings operations)) =
      operations.flatMap found := by
  rw [stripComments_cons (by decide) (by decide), stripComments_cons (by decide) (by decide),
    collect_newline _ hblank, collect_newline _ hblank]
  induction operations with
  | nil => rfl
  | cons o operations ih =>
    have ih := ih fun o ho => h o (List.mem_cons_of_mem _ ho)
    have ho := h o List.mem_cons_self
    rw [stripComments_functionsText_cons ho hc]
    split
    · rw [List.singleton_append, collect_newline _ hblank, hone o ho, ih, List.flatMap_cons]
    · rw [List.nil_append, hone o ho, ih, List.flatMap_cons]

/-- The exported functions of a text of request functions are these functions, with their code. -/
theorem exportedFunctions_functionsText {operations : List Operation}
    (h : ∀ o ∈ operations, o.IsLegible) (hc : IsDotted settings.requestClient) :
    exportedFunctions ('\n' :: '\n' :: functionsText settings operations) =
      Table.ofEntries (operations.map fun o => (o.callName, o.functionCode settings)) := by
  have hconstants : collect (functionAt constantHead? afterArrow?)
      (stripComments ('\n' :: '\n' :: functionsText settings operations)) =
        operations.map fun o => some (o.callName, o.functionCode settings) := by
    rw [List.map_eq_flatMap]
    exact collect_functionsText h hc _ _ _ constantHead?_newline fun o ho => Operation.collect_functionCode ho hc
  have hfunctions : collect (functionAt functionHead? afterBody?)
      (stripComments ('\n' :: '\n' :: functionsText settings operations)) = [] := by
    rw [collect_functionsText h hc _ _ (fun _ => []) functionHead?_newline fun o ho =>
      Operation.collect_functionHead ho hc]
    simp
  simp only [exportedFunctions, hconstants, hfunctions, List.filterMap_map, List.filterMap_nil, List.append_nil]
  exact congrArg Table.ofEntries (congrFun List.filterMap_eq_map operations)

end ClientGen
