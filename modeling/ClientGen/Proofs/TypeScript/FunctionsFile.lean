import ClientGen.Proofs.Text.Entries
import ClientGen.Proofs.Text.Lines
import ClientGen.Proofs.TypeScript.RequestFunction
import ClientGen.Proofs.TypeScript.Region
/-!
# Functions files

The markers of a functions file are the ones that its renderer writes, as long as nothing that is written
around them holds a marker. What lies between them is the text of the request functions.
-/

namespace ClientGen

open Text Source

def markers : List Text := [startMarker, endMarker]

def HasNoMarker (t : Text) : Prop := ∀ m ∈ markers, ¬m <:+: t

/-- An operation that puts no marker into its request function. -/
structure Operation.IsUnmarked (o : Operation) : Prop where
  summary_unmarked : ∀ s ∈ o.summary, HasNoMarker (collapse s)
  path_unmarked : HasNoMarker o.requestPath

/-! ## Texts without markers -/

namespace HasNoMarker

theorem of_notMem {t : Text} {c : Char} (hc : ∀ m ∈ markers, c ∈ m) (h : c ∉ t) : HasNoMarker t :=
  fun m hm hi => h (hi.subset (hc m hm))

theorem of_no_slash {t : Text} (h : '/' ∉ t) : HasNoMarker t := of_notMem (by decide) h

theorem append_cons_iff {a b : Text} {c : Char} (hc : ∀ m ∈ markers, c ∉ m) :
    HasNoMarker (a ++ c :: b) ↔ HasNoMarker a ∧ HasNoMarker b := by
  constructor
  · intro h
    exact ⟨fun m hm hi => h m hm ((infix_append_cons_iff (hc m hm)).2 (.inl hi)),
      fun m hm hi => h m hm ((infix_append_cons_iff (hc m hm)).2 (.inr hi))⟩
  · rintro ⟨ha, hb⟩ m hm hi
    rcases (infix_append_cons_iff (hc m hm)).1 hi with hi | hi
    · exact ha m hm hi
    · exact hb m hm hi

theorem append_cons {a b : Text} {c : Char} (hc : ∀ m ∈ markers, c ∉ m) (ha : HasNoMarker a)
    (hb : HasNoMarker b) : HasNoMarker (a ++ c :: b) := (append_cons_iff hc).2 ⟨ha, hb⟩

theorem cons {t : Text} {c : Char} (hc : c ≠ '/') (h : HasNoMarker t) : HasNoMarker (c :: t) := by
  intro m hm hi
  have hhead : ∀ m ∈ markers, m.head? = some '/' := by decide
  rcases List.infix_cons_iff.1 hi with ⟨r, hr⟩ | hi
  · have hm := hhead m hm
    cases m with
    | nil => cases hm
    | cons d m =>
      obtain ⟨rfl, -⟩ := List.cons_eq_cons.1 hr
      exact hc (by simpa using hm)
  · exact h m hm hi

theorem concat {t : Text} {c : Char} (hc : c ≠ '-') (h : HasNoMarker t) : HasNoMarker (t ++ [c]) := by
  intro m hm hi
  have hlast : ∀ m ∈ markers, m.getLast? = some '-' := by decide
  rcases List.infix_concat_iff.1 hi with ⟨r, hr⟩ | hi
  · have hm := hlast m hm
    have hl := congrArg List.getLast? hr
    rw [List.getLast?_append, hm] at hl
    exact hc (by simpa using hl.symm)
  · exact h m hm hi

theorem append_of_no_slash {s t : Text} (hs : '/' ∉ s) (h : HasNoMarker t) : HasNoMarker (s ++ t) := by
  induction s with
  | nil => exact h
  | cons c s ih =>
    rw [List.mem_cons, not_or] at hs
    exact cons (Ne.symm hs.1) (ih hs.2)

theorem join {s : Text} {c : Char} {ps : List Text} (hc : ∀ m ∈ markers, c ∉ m) (hs : '/' ∉ s)
    (hp : ∀ p ∈ ps, HasNoMarker p) : HasNoMarker (join (c :: s) ps) := by
  induction ps with
  | nil => exact of_no_slash (by simp)
  | cons p ps ih =>
    have ih := ih fun p hm => hp p (List.mem_cons_of_mem _ hm)
    cases ps with
    | nil => simpa using hp p List.mem_cons_self
    | cons q ps =>
      rw [join_cons_cons, List.append_assoc, List.cons_append]
      exact append_cons hc (hp p List.mem_cons_self) (append_of_no_slash hs ih)

end HasNoMarker

/-! ## The markers of a functions file -/

theorem IsTypeName.no_slash {t : Text} (h : IsTypeName t) : '/' ∉ t :=
  fun hc => absurd (h.mem hc) (by decide)

theorem IsDotted.no_slash {t : Text} (h : IsDotted t) : '/' ∉ t :=
  fun hc => absurd (h.mem hc) (by decide)

private theorem no_slash_of_identChars {t : Text} (h : ∀ c ∈ t, isIdentChar c = true) : '/' ∉ t :=
  fun hc => absurd (h _ hc) (by decide)

namespace Operation

variable {o : Operation} {settings : Settings}

private theorem IsLegible.method_no_slash (h : o.IsLegible) : '/' ∉ lower o.method :=
  no_slash_of_identChars h.isIdentChar_of_mem_method

private theorem IsLegible.headLine_no_slash (h : o.IsLegible) : '/' ∉ o.headLine :=
  fun hc => absurd (h.mem_headLine hc) (by decide)

private theorem chainCall_unmarked (h : o.IsLegible) (hu : o.IsUnmarked) {client response : Text}
    (hc : IsDotted client) (hr : IsTypeName response) :
    HasNoMarker (join "\n" (chainCall client o response)) := by
  have heq : join "\n" (chainCall client o response) = ("  return " ++ client ++ "." ++ lower o.method ++
      "<" ++ response ++ ">(") ++ (join ", " o.chainArguments ++ [')']) := by
    have hcall : chainCall client o response = ["  return " ++ client ++ "." ++ lower o.method ++ "<" ++
      response ++ ">(" ++ join ", " o.chainArguments ++ ")"] := rfl
    rw [hcall, join_singleton, List.append_assoc]
    rfl
  have hargs : HasNoMarker (join ", " o.chainArguments) := by
    refine .join (c := ',') (s := [' ']) (by decide) (by decide) fun e he => ?_
    simp only [chainArguments, List.cons_append, List.mem_cons, List.mem_append,
      List.mem_ite_nil_right, List.not_mem_nil, or_false] at he
    rcases he with rfl | ⟨-, rfl⟩ | ⟨-, rfl⟩
    · exact hu.path_unmarked
    · exact .of_no_slash (by decide)
    · exact .of_no_slash (by decide)
  rw [heq]
  refine .append_of_no_slash ?_ (.concat (by decide) hargs)
  simp [hc.no_slash, hr.no_slash, h.method_no_slash]

private theorem objectCall_unmarked (h : o.IsLegible) (hu : o.IsUnmarked) {client response : Text}
    (hc : IsDotted client) (hr : IsTypeName response) :
    HasNoMarker (join "\n" (objectCall client o response)) := by
  have heq : objectCall client o response = ["  return " ++ client ++ "<" ++ response ++ ">(\x7b",
      join ",\n" o.objectEntries, "  \x7d)"] := rfl
  have hfirst : '/' ∉ "  return " ++ client ++ "<" ++ response ++ ">(\x7b" := by
    simp [hc.no_slash, hr.no_slash]
  have hentries : HasNoMarker (join ",\n" o.objectEntries) := by
    refine .join (c := ',') (s := ['\n']) (by decide) (by decide) fun e he => ?_
    simp only [objectEntries, List.mem_append, List.mem_cons, List.mem_ite_nil_right,
      List.not_mem_nil, or_false] at he
    rcases he with ((rfl | rfl) | ⟨-, rfl⟩) | ⟨-, rfl⟩
    · exact .append_of_no_slash (by decide) hu.path_unmarked
    · exact .of_no_slash (by simp [h.method_no_slash])
    · exact .of_no_slash (by decide)
    · exact .of_no_slash (by decide)
  rw [heq]
  refine .join (c := '\n') (s := []) (by decide) (by simp) fun l hl => ?_
  simp only [List.mem_cons, List.not_mem_nil, or_false] at hl
  rcases hl with rfl | rfl | rfl
  · exact .of_no_slash hfirst
  · exact hentries
  · exact .of_no_slash (by decide)

/-- A legible operation that holds no marker puts none into its request function. -/
theorem IsUnmarked.renderFunction (hu : o.IsUnmarked) (h : o.IsLegible)
    (hc : IsDotted settings.requestClient) : HasNoMarker (o.renderFunction settings) := by
  have hcall : HasNoMarker (o.callText settings) := by
    unfold callText callLines
    cases settings.requestStyle with
    | chain => exact chainCall_unmarked h hu hc h.response_named
    | object => exact objectCall_unmarked h hu hc h.response_named
  have hcode : HasNoMarker (o.functionCode settings) :=
    .append_cons (by decide) (.of_no_slash h.headLine_no_slash)
      (.append_cons (by decide) hcall (.of_no_slash (by decide)))
  rw [renderFunction_eq]
  cases hs : named? o.summary with
  | none => exact hcode
  | some s =>
    have hsummary := hu.summary_unmarked s (named?_eq_some_iff.1 hs).1
    have heq : "/** ".toList ++ collapse s ++ " */".toList ++ ['\n'] ++ o.functionCode settings =
        "/*".toList ++ '*' :: ((' ' :: (collapse s ++ [' '])) ++ '*' ::
          ("/".toList ++ '\n' :: o.functionCode settings)) := by simp
    have hstars : HasNoMarker "/*".toList := by
      unfold HasNoMarker
      decide
    have hslash : HasNoMarker "/".toList := by
      unfold HasNoMarker
      decide
    rw [heq]
    exact .append_cons (by decide) hstars (.append_cons (by decide)
      (.cons (by decide) (.concat (by decide) hsummary)) (.append_cons (by decide) hslash hcode))

end Operation

variable {settings : Settings} {operations : List Operation}

theorem isIdentChar_of_mem_importedTypes {n : Text} (h : n ∈ importedTypes operations) {c : Char} (hc : c ∈ n) :
    isIdentChar c = true ∨ c = '\n' := by
  rw [importedTypes, sort, List.mem_mergeSort, mem_firstOccurrences, List.mem_filterMap] at h
  obtain ⟨t, -, ht⟩ := h
  simp only [importOf] at ht
  split at ht
  · next hn =>
    cases ht
    rw [Bool.and_eq_true] at hn
    rcases Naming.isBareName_iff.1 hn.1 with hi | ⟨line, he, hi⟩
    · exact .inl (isIdentChar_of_mem hi c hc)
    · rw [he, List.mem_append] at hc
      rcases hc with hc | hc
      · exact .inl (isIdentChar_of_mem hi c hc)
      · exact .inr (List.mem_singleton.1 hc)
  · cases ht

def typeImportLine (names : List Text) : Text :=
  "import type \x7b " ++ join ", " names ++ " \x7d from '" ++ "./types" ++ "'"

theorem typeImportLine_unmarked : HasNoMarker (typeImportLine (importedTypes operations)) := by
  have hnames : '/' ∉ join ", " (importedTypes operations) := by
    intro h
    rcases mem_join h with h | ⟨n, hn, h⟩
    · exact absurd h (by decide)
    · exact absurd (isIdentChar_of_mem_importedTypes hn h) (by decide)
  have hslash : '/' ∉ "import type \x7b " ++ join ", " (importedTypes operations) ++ " \x7d from '" := by
    simpa using hnames
  have hmodule : HasNoMarker "./types'".toList := by
    unfold HasNoMarker
    decide
  unfold typeImportLine
  rw [List.append_assoc]
  exact .append_of_no_slash hslash hmodule

private theorem importLines_unmarked (hc : HasNoMarker settings.requestClient)
    (hi : HasNoMarker settings.requestImport) {l : Text}
    (hl : l ∈ importLines settings operations "./types") : HasNoMarker l := by
  have hclient : HasNoMarker ("import \x7b " ++ settings.requestClient ++ " \x7d from '" ++
      settings.requestImport ++ "'") := by
    have heq : "import \x7b " ++ settings.requestClient ++ " \x7d from '" ++ settings.requestImport ++ "'" =
        ("import \x7b " ++ settings.requestClient ++ [' ']) ++ '\x7d' ::
          (" from '" ++ (settings.requestImport ++ "'")) := by simp
    rw [heq]
    exact .append_cons (by decide) (.concat (by decide) (.append_of_no_slash (by decide) hc))
      (.append_of_no_slash (by decide) (.concat (by decide) hi))
  simp only [importLines, List.mem_cons] at hl
  rcases hl with rfl | hl
  · exact hclient
  · split at hl
    · cases hl
    · rw [List.mem_singleton] at hl
      exact hl ▸ typeImportLine_unmarked

/-- The parts of a functions file. -/
def functionsFileParts (settings : Settings) (operations : List Operation) : MarkedFile where
  before := functionsFileHeader ++ '\n' :: (join "\n" (importLines settings operations "./types") ++
    '\n' :: '\n' :: [])
  region := '\n' :: '\n' :: functionsText settings operations
  after := "\n"

/-- What stands before the region has no carriage return, if the client and its module have none. -/
theorem notMem_before (hc : '\r' ∉ settings.requestClient) (hi : '\r' ∉ settings.requestImport) :
    '\r' ∉ (functionsFileParts settings operations).before := by
  have hheader : '\r' ∉ functionsFileHeader := by decide +kernel
  have hnames : '\r' ∉ join ", " (importedTypes operations) := by
    intro h
    rcases mem_join h with h | ⟨n, hn, h⟩
    · exact absurd h (by decide)
    · exact absurd (isIdentChar_of_mem_importedTypes hn h) (by decide)
  have himports : '\r' ∉ join "\n" (importLines settings operations "./types") := by
    intro h
    rcases mem_join h with h | ⟨l, hl, h⟩
    · exact absurd h (by decide)
    · simp only [importLines, List.mem_cons] at hl
      rcases hl with rfl | hl
      · simp [hc, hi] at h
      · split at hl
        · cases hl
        · rw [List.mem_singleton] at hl
          subst hl
          simp only [List.mem_append, hnames, or_false] at h
          exact absurd h (by decide)
  simp only [functionsFileParts, List.mem_append, List.mem_cons, hheader, himports]
  decide

private theorem unlines_functions (settings : Settings) (operations : List Operation) :
    unlines (operations.flatMap fun o => [o.renderFunction settings, []]) =
      functionsText settings operations := by
  induction operations with
  | nil => rfl
  | cons o operations ih =>
    rw [List.flatMap_cons, unlines_append, ih, functionsText, functionsText, List.flatMap_cons]
    simp

theorem renderFunctionsFile_eq (settings : Settings) (operations : List Operation) :
    renderFunctionsFile settings operations = (functionsFileParts settings operations).toText := by
  let functions := operations.flatMap fun o => [o.renderFunction settings, []]
  let imports := join "\n" (importLines settings operations "./types")
  have hlist : [functionsFileHeader, imports, [], startMarker, []] ++ functions ++ [endMarker, []] =
      ([functionsFileHeader, imports, [], startMarker, []] ++ functions ++ [endMarker]) ++ [[]] := by
    simp
  have hjoin : renderFunctionsFile settings operations =
      unlines ([functionsFileHeader, imports, [], startMarker, []] ++ functions ++ [endMarker]) := by
    rw [← join_concat_nil (by simp), ← hlist]
    rfl
  rw [hjoin, unlines_append, unlines_append, unlines_functions]
  simp [functionsFileParts, MarkedFile.toText, imports]

private theorem functionsText_append_unmarked (hl : ∀ o ∈ operations, o.IsLegible)
    (hu : ∀ o ∈ operations, o.IsUnmarked) (hc : IsDotted settings.requestClient) {r : Text}
    (hr : HasNoMarker r) : HasNoMarker (functionsText settings operations ++ r) := by
  induction operations with
  | nil => exact hr
  | cons o operations ih =>
    have ih := ih (fun o ho => hl o (List.mem_cons_of_mem _ ho)) fun o ho => hu o (List.mem_cons_of_mem _ ho)
    have hfirst := (hu o List.mem_cons_self).renderFunction (hl o List.mem_cons_self) hc
    have heq : functionsText settings (o :: operations) ++ r =
        o.renderFunction settings ++ '\n' :: ('\n' :: (functionsText settings operations ++ r)) := by
      simp [functionsText]
    rw [heq]
    exact .append_cons (by decide) hfirst (.cons (by decide) ih)

private theorem functionsFileHeader_unmarked : HasNoMarker functionsFileHeader := by
  have heq : functionsFileHeader =
      "/".toList ++ '*' :: ((functionsFileHeader.drop 2).dropLast.dropLast ++ "/\n".toList) := by
    decide +kernel
  have hslash : '/' ∉ (functionsFileHeader.drop 2).dropLast.dropLast := by decide +kernel
  have hends : HasNoMarker "/".toList ∧ HasNoMarker "/\n".toList := by
    unfold HasNoMarker
    decide
  rw [heq]
  exact .append_cons (by decide) hends.1 (.append_of_no_slash hslash hends.2)

private theorem infix_before_append (hc : HasNoMarker settings.requestClient)
    (hi : HasNoMarker settings.requestImport) {m r : Text} (hm : m ∈ markers)
    (h : m <:+: (functionsFileParts settings operations).before ++ r) : m <:+: r := by
  have hline : ∀ m ∈ markers, '\n' ∉ m := by decide
  have himports : HasNoMarker (join "\n" (importLines settings operations "./types")) :=
    .join (c := '\n') (s := []) hline (by simp) fun l => importLines_unmarked hc hi
  have heq : (functionsFileParts settings operations).before ++ r = functionsFileHeader ++ '\n' ::
      (join "\n" (importLines settings operations "./types") ++ '\n' :: ([] ++ '\n' :: r)) := by
    simp [functionsFileParts]
  rw [heq, infix_append_cons_iff (hline m hm), infix_append_cons_iff (hline m hm),
    infix_append_cons_iff (hline m hm)] at h
  rcases h with h | h | h | h
  · exact absurd h (functionsFileHeader_unmarked m hm)
  · exact absurd h (himports m hm)
  · exact absurd h (HasNoMarker.of_no_slash (by simp) m hm)
  · exact h

theorem functionsFileParts_isProper (hl : ∀ o ∈ operations, o.IsLegible)
    (hu : ∀ o ∈ operations, o.IsUnmarked) (hc : IsDotted settings.requestClient)
    (hi : HasNoMarker settings.requestImport) :
    (functionsFileParts settings operations).IsProper where
  start_first h := absurd (infix_before_append (.of_no_slash hc.no_slash) hi (by decide) h) (by decide)
  end_first h := by
    have hend : HasNoMarker endMarker.dropLast := by
      unfold HasNoMarker
      decide
    have hfunctions : HasNoMarker ('\n' :: (functionsText settings operations ++ endMarker.dropLast)) :=
      .cons (by decide) (functionsText_append_unmarked hl hu hc hend)
    rw [List.append_assoc, List.append_assoc] at h
    have hrest := infix_before_append (.of_no_slash hc.no_slash) hi (by decide) h
    have heq : startMarker ++ ((functionsFileParts settings operations).region ++ endMarker.dropLast) =
        startMarker ++ '\n' :: ('\n' :: (functionsText settings operations ++ endMarker.dropLast)) := by
      simp [functionsFileParts]
    rw [heq, infix_append_cons_iff (by decide)] at hrest
    rcases hrest with hrest | hrest
    · exact absurd hrest (by decide)
    · exact hfunctions endMarker (by decide) hrest

/-- Whatever its operations are, a functions file has usable markers, and the first one is the renderer's. -/
theorem exists_parts_renderFunctionsFile (hc : HasNoMarker settings.requestClient)
    (hi : HasNoMarker settings.requestImport) (operations : List Operation) :
    ∃ f, MarkedFile.ofText? (renderFunctionsFile settings operations) = some f ∧
      f.before = (functionsFileParts settings operations).before := by
  have hne : endMarker ≠ [] := by decide
  obtain ⟨rest, hdef⟩ : ∃ rest, rest = '\n' :: ('\n' :: functionsText settings operations ++ endMarker ++ ['\n']) :=
    ⟨_, rfl⟩
  have hall : (functionsFileParts settings operations).toText =
      (functionsFileParts settings operations).before ++ startMarker ++ rest := by
    simp [MarkedFile.toText, functionsFileParts, hdef]
  obtain ⟨⟨inside, after⟩, hcut⟩ : ∃ parts, cut? endMarker rest = some parts := by
    apply Option.ne_none_iff_exists'.1
    rw [ne_eq, cut?_eq_none_iff, not_not, hdef]
    exact ⟨'\n' :: '\n' :: functionsText settings operations, ['\n'], by simp⟩
  obtain ⟨hrest, hfirst⟩ := (cut?_eq_some_iff hne).1 hcut
  -- the generated part begins on a line of its own, so that no marker lies across its beginning
  obtain ⟨inside, rfl⟩ : ∃ tail, inside = '\n' :: tail := by
    rw [hrest] at hdef
    cases inside with
    | nil =>
      have hslash : endMarker.head? = some '/' := by decide
      have hhead := congrArg List.head? hdef
      rw [List.nil_append, List.head?_append, hslash] at hhead
      cases hhead
    | cons c tail =>
      obtain ⟨rfl, -⟩ := List.cons_eq_cons.1 hdef
      exact ⟨tail, rfl⟩
  refine ⟨⟨(functionsFileParts settings operations).before, '\n' :: inside, after⟩, ?_, rfl⟩
  rw [MarkedFile.ofText?_eq_some_iff, renderFunctionsFile_eq]
  refine ⟨?_, ?_, ?_⟩
  · rw [hall, hrest]
    simp [MarkedFile.toText]
  · intro h
    exact absurd (infix_before_append hc hi (by decide) h) (by decide)
  · intro h
    rw [List.append_assoc, List.append_assoc] at h
    have hinside := infix_before_append hc hi (by decide) h
    rw [List.cons_append, infix_append_cons_iff (by decide)] at hinside
    rcases hinside with hinside | hinside
    · exact absurd hinside (by decide)
    · exact hfirst (hinside.trans (List.suffix_cons _ _).isInfix)

/-- A functions file is taken apart into the parts that it is made of. -/
theorem ofText?_renderFunctionsFile (hl : ∀ o ∈ operations, o.IsLegible)
    (hu : ∀ o ∈ operations, o.IsUnmarked) (hc : IsDotted settings.requestClient)
    (hi : HasNoMarker settings.requestImport) :
    MarkedFile.ofText? (renderFunctionsFile settings operations) =
      some (functionsFileParts settings operations) :=
  MarkedFile.ofText?_eq_some_iff.2
    ⟨renderFunctionsFile_eq settings operations, functionsFileParts_isProper hl hu hc hi⟩

end ClientGen
