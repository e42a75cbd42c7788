import ClientGen.Proofs.TypeScript.Interpolation
/-!
# Document text in comments and literals

A summary stays in the comment of its request function, and a path in its literal, as long as it holds nothing that
ends the one or the other.
-/

namespace ClientGen

open Text Source

namespace Source

/-! ## The length of a literal -/

/-- The number of characters behind a mode up to the end of its literal. A quote that ends it counts, a line feed does
not. -/
def lengthInside (mode : Mode) : Text → Nat
  | [] => 0
  | c :: cs =>
    match mode.step c with
    | (.code, quoted) => if quoted then 1 else 0
    | (next, _) => lengthInside next cs + 1

/-- The number of characters of the literal at the beginning of a text. -/
def literalLength : Text → Nat
  | [] => 0
  | q :: t => lengthInside (.literal q) t + 1

variable {q : Char}

theorem marks_literalLength (hq : isQuote q = true) (t : Text) :
    marks (q :: t) = ((q :: t).take (literalLength (q :: t))).map (⟨·, true⟩) ++
      marks ((q :: t).drop (literalLength (q :: t))) := by
  have inside : ∀ (t : Text) (mode : Mode), mode ≠ .code →
      marksFrom mode t = (t.take (lengthInside mode t)).map (⟨·, true⟩) ++ marks (t.drop (lengthInside mode t)) := by
    intro t
    induction t with
    | nil => exact fun _ _ => rfl
    | cons c t ih =>
      intro mode hmode
      cases mode with
      | code => exact absurd rfl hmode
      | escape r => simp [marksFrom, lengthInside, Mode.step, ih (.literal r) (by simp)]
      | literal r =>
        by_cases hb : c = '\\'
        · simp [marksFrom, lengthInside, Mode.step, hb, ih (.escape r) (by simp)]
        by_cases hr : c = r
        · simp [marksFrom, lengthInside, Mode.step, ← hr, hb, marks]
        by_cases hl : c = '\n' ∧ ¬r = '\x60'
        · obtain ⟨rfl, hl⟩ := hl
          have hquote : isQuote '\n' = false := by decide
          simp [marksFrom, lengthInside, Mode.step, hr, hl, marks, hquote]
        · simp [marksFrom, lengthInside, Mode.step, hb, hr, hl, ih (.literal r) (by simp)]
  simpa [marks, marksFrom, Mode.step, hq, literalLength] using inside t (.literal q) (by simp)

/-! ## Texts between quotes -/

private theorem literalBody_escape_iff {c : Char} {t : Text} :
    LiteralBody q ('\\' :: c :: t) ↔ LiteralBody q t := by
  refine ⟨fun h => ?_, .escape⟩
  cases h with
  | plain hb _ _ _ => exact absurd rfl hb
  | escape ht => exact ht

private theorem literalBody_cons_iff {c : Char} (hb : c ≠ '\\') {t : Text} :
    LiteralBody q (c :: t) ↔ c ≠ q ∧ (c = '\n' → q = '\x60') ∧ LiteralBody q t := by
  constructor
  · intro h
    cases h with
    | plain _ hq hl ht => exact ⟨hq, hl, ht⟩
    | escape _ => exact absurd rfl hb
  · rintro ⟨hq, hl, ht⟩
    exact .plain hb hq hl ht

/-- A text between quotes that does not end the literal: its quote stands in it only behind a backslash, and a line feed
only in a template. It may end in a backslash, behind which the closing quote ends nothing either. -/
def KeepsOpen (q : Char) (b : Text) : Prop := LiteralBody q b ∨ ∃ d, LiteralBody q d ∧ b = d ++ ['\\']

private theorem keepsOpen_escape_iff {c : Char} {b : Text} :
    KeepsOpen q ('\\' :: c :: b) ↔ KeepsOpen q b := by
  refine or_congr literalBody_escape_iff ⟨?_, ?_⟩
  · rintro ⟨d, hd, he⟩
    match d, hd, he with
    | ['\\'], hd, _ => cases hd with | plain hb _ _ _ => exact absurd rfl hb
    | _ :: _ :: d, hd, he =>
      simp only [List.cons_append, List.cons.injEq] at he
      obtain ⟨rfl, rfl, rfl⟩ := he
      exact ⟨d, literalBody_escape_iff.1 hd, rfl⟩
  · rintro ⟨d, hd, rfl⟩
    exact ⟨_, .escape hd, rfl⟩

private theorem keepsOpen_cons_iff {c : Char} (hb : c ≠ '\\') {b : Text} :
    KeepsOpen q (c :: b) ↔ c ≠ q ∧ (c = '\n' → q = '\x60') ∧ KeepsOpen q b := by
  have hend : (∃ d, LiteralBody q d ∧ c :: b = d ++ ['\\']) ↔
      c ≠ q ∧ (c = '\n' → q = '\x60') ∧ ∃ d, LiteralBody q d ∧ b = d ++ ['\\'] := by
    constructor
    · rintro ⟨d, hd, he⟩
      cases d with
      | nil => exact absurd (List.cons_eq_cons.1 he).1 hb
      | cons a d =>
        obtain ⟨rfl, rfl⟩ := List.cons_eq_cons.1 he
        obtain ⟨hq, hl, hd⟩ := (literalBody_cons_iff hb).1 hd
        exact ⟨hq, hl, d, hd, rfl⟩
    · rintro ⟨hq, hl, d, hd, rfl⟩
      exact ⟨c :: d, .plain hb hq hl hd, rfl⟩
  rw [KeepsOpen, literalBody_cons_iff hb, hend, KeepsOpen]
  tauto

/-- A literal that is opened before a text and closed behind it ends nowhere else when the text keeps it open. -/
theorem literalLength_eq_iff (hq : isQuote q = true) (b : Text) :
    literalLength (q :: b ++ [q]) = (q :: b ++ [q]).length ↔ KeepsOpen q b := by
  have hback : q ≠ '\\' := ne_backslash_of_isQuote hq
  have inside : ∀ b : Text, lengthInside (.literal q) (b ++ [q]) = b.length + 1 ↔ KeepsOpen q b := by
    intro b
    -- An escaped character goes with its backslash, so the recursion takes one or two characters.
    induction h : b.length using Nat.strong_induction_on generalizing b with
    | _ n ih =>
    subst h
    cases b with
    | nil => simp [lengthInside, Mode.step, hback, KeepsOpen, LiteralBody.nil]
    | cons c b =>
      by_cases hb : c = '\\'
      · subst hb
        cases b with
        | nil =>
          have hopen : KeepsOpen q ['\\'] := .inr ⟨[], .nil, rfl⟩
          simp [lengthInside, Mode.step, hopen]
        | cons c b =>
          rw [keepsOpen_escape_iff, ← ih b.length (by simp only [List.length_cons]; omega) b rfl]
          simp [lengthInside, Mode.step]
      rw [keepsOpen_cons_iff hb, ← ih b.length (by simp) b rfl]
      by_cases hc : c = q
      · simp [lengthInside, Mode.step, hc, hback]
      by_cases hl : c = '\n' ∧ ¬q = '\x60'
      · obtain ⟨rfl, hl⟩ := hl
        simp [lengthInside, Mode.step, hc, hl]
      · have hnl : c = '\n' → q = '\x60' := fun h => not_not.1 fun hn => hl ⟨h, hn⟩
        simpa [lengthInside, Mode.step, hb, hc, hl] using fun _ => hnl
  rw [← inside b]
  simp [literalLength]

end Source

namespace Operation

/-! ## Summaries -/

/-- What a summary leaves behind its comment: what stands behind the first end of a comment in it, and the end of the
comment that it was meant for. -/
def exposed (s : Text) : Text :=
  match cut? "*/" (collapse s) with
  | some (_, rest) => rest ++ " */"
  | none => []

theorem exposed_eq_nil_iff {s : Text} : exposed s = [] ↔ ¬"*/".toList <:+: s := by
  rw [← infix_collapse_iff (by decide) (by decide), ← cut?_eq_none_iff, exposed]
  cases cut? "*/" (collapse s) with
  | none => simp
  | some parts => simp

theorem stripComments_summary (s r : Text) :
    stripComments ("/** ".toList ++ collapse s ++ " */".toList ++ r) = stripComments (exposed s ++ r) := by
  rw [exposed]
  cases hc : cut? "*/" (collapse s) with
  | none =>
    have hopen : ¬"*/".toList <:+: collapse s := cut?_eq_none_iff.1 hc
    simpa using stripComments_comment hopen (r := r)
  | some parts =>
    obtain ⟨before, rest⟩ := parts
    obtain ⟨hs, hfirst⟩ := (cut?_eq_some_iff (by decide)).1 hc
    have hblock : ¬"*/".toList <:+: ("* ".toList ++ before) ++ ['*'] := by
      have hsplit : ("* ".toList ++ before) ++ ['*'] = ['*'] ++ ' ' :: (before ++ ['*']) := by simp
      rw [hsplit, infix_append_cons_iff (by decide)]
      simpa using ⟨by decide, hfirst⟩
    have hstrip := stripComments_block hblock (r := rest ++ " */".toList ++ r)
    rw [hs]
    simpa using hstrip

variable {o : Operation} {s : Text}

def withSummary (o : Operation) (s : Text) : Operation := { o with summary := some s }

/-- Without its comments, a request function with a summary is what the summary leaves behind its comment, before the
code of the function. -/
theorem stripComments_withSummary (settings : Settings) (o : Operation) (hs : s ≠ []) :
    stripComments ((o.withSummary s).renderFunction settings) =
      stripComments (exposed s ++ '\n' :: o.functionCode settings) := by
  have hcode : (o.withSummary s).functionCode settings = o.functionCode settings := rfl
  have hnamed : named? (o.withSummary s).summary = some s := named?_eq_some_iff.2 ⟨rfl, hs⟩
  have hstrip := stripComments_summary s ('\n' :: o.functionCode settings)
  rw [renderFunction_eq, hcode, hnamed]
  simpa using hstrip

/-! ## Paths -/

theorem isQuote_pathQuote (o : Operation) : isQuote o.pathQuote = true := by
  unfold pathQuote
  split <;> rfl

theorem literalLength_requestPath_iff (o : Operation) :
    literalLength o.requestPath = o.requestPath.length ↔ KeepsOpen o.pathQuote o.pathText :=
  literalLength_eq_iff o.isQuote_pathQuote o.pathText

/-- A path without backquotes and backslashes keeps its template open, whatever its parameters are named. -/
theorem keepsOpen_of_pathParams (hp : o.pathParams ≠ []) (h : ∀ c ∈ o.cleanPath, c ≠ '\\' ∧ c ≠ '\x60') :
    KeepsOpen o.pathQuote o.pathText := by
  have hquote : o.pathQuote = '\x60' := by simp [pathQuote, hp]
  have hmem : ∀ c ∈ o.pathText, c ≠ '\\' ∧ c ≠ '\x60' := by
    refine forall_mem_interpolated (by decide) (fun p _ c hc => ?_) h
    rcases Naming.mem_paramIdentifier hc with hi | ⟨rfl, -⟩
    · exact ⟨ne_of_isIdentChar hi (by decide), ne_of_isIdentChar hi (by decide)⟩
    · decide
  rw [hquote]
  exact .inl (.of_forall fun c hc => ⟨(hmem c hc).1, (hmem c hc).2, fun _ => rfl⟩)

/-! ## Enclosure -/

/-- Summaries without the end of a comment make no difference to the code of a request function, and any other summary
adds exactly what stands behind the first end in it. The path of the request is one literal exactly if it holds neither
its quote unescaped nor, in a plain string, a line feed; a path with parameters is one if it holds no backquote and no
backslash. -/
theorem requestFunction_enclosed (settings : Settings) (o : Operation) :
    (∀ s₁ s₂ : Text, s₁ ≠ [] → s₂ ≠ [] → ¬"*/".toList <:+: s₁ → ¬"*/".toList <:+: s₂ →
      stripComments ((o.withSummary s₁).renderFunction settings) =
        stripComments ((o.withSummary s₂).renderFunction settings)) ∧
    (∀ s : Text, s ≠ [] → stripComments ((o.withSummary s).renderFunction settings) =
      stripComments (exposed s ++ '\n' :: o.functionCode settings)) ∧
    (literalLength o.requestPath = o.requestPath.length ↔ KeepsOpen o.pathQuote o.pathText) ∧
    (o.pathParams = [] → o.pathQuote = '\'' ∧ o.pathText = o.cleanPath) ∧
    (o.pathParams ≠ [] → (∀ c ∈ o.cleanPath, c ≠ '\\' ∧ c ≠ '\x60') →
      literalLength o.requestPath = o.requestPath.length) := by
  refine ⟨fun s₁ s₂ hs₁ hs₂ h₁ h₂ => ?_, fun s hs => stripComments_withSummary settings o hs,
    o.literalLength_requestPath_iff, fun hp => ?_, fun hp h => ?_⟩
  · rw [stripComments_withSummary settings o hs₁, stripComments_withSummary settings o hs₂,
      exposed_eq_nil_iff.2 h₁, exposed_eq_nil_iff.2 h₂]
  · simp [pathQuote, pathText, hp]
  · exact o.literalLength_requestPath_iff.2 (keepsOpen_of_pathParams hp h)

/-- The two summaries of an operation make no difference, and its path is one literal, with and without a parameter. -/
theorem requestFunction_enclosed_of_pets :
    let list : Operation := { cleanPath := "/pets" }
    let one : Operation := { cleanPath := "/pets/\x7bid\x7d", pathParams := [{ name := "id", location := "path" }] }
    stripComments ((list.withSummary "List all pets").renderFunction {}) =
        stripComments ((list.withSummary "What's for sale; // or not").renderFunction {}) ∧
      literalLength list.requestPath = list.requestPath.length ∧
      literalLength one.requestPath = one.requestPath.length := by
  intro list one
  obtain ⟨hsummary, -, hpath, hplain, -⟩ := requestFunction_enclosed {} list
  obtain ⟨-, -, -, -, htemplate⟩ := requestFunction_enclosed {} one
  obtain ⟨hquote, htext⟩ := hplain rfl
  have hopen : KeepsOpen '\'' list.cleanPath := .inl (.of_forall (by decide))
  have hend {s : Text} (h : occurs "*/" s = false) : ¬"*/".toList <:+: s :=
    cut?_eq_none_iff.1 (by simpa [occurs] using h)
  refine ⟨hsummary _ _ (by decide) (by decide) (hend (by decide)) (hend (by decide)), ?_,
    htemplate (by decide) (by decide)⟩
  rw [hpath, hquote, htext]
  exact hopen

/-- A summary with the end of a comment in it gets out of its comment, and a path with an apostrophe ends its
literal. -/
theorem requestFunction_not_enclosed :
    let list : Operation := { cleanPath := "/pets" }
    let its : Operation := { cleanPath := "/it's" }
    stripComments ((list.withSummary "ends */ here").renderFunction {}) ≠
        stripComments ((list.withSummary "ends").renderFunction {}) ∧
      stripComments ((list.withSummary "ends */ here").renderFunction {}) =
        " here */\n".toList ++ list.functionCode {} ∧
      literalLength its.requestPath = 5 ∧ its.requestPath.length = 7 := by
  intro list its
  refine ⟨by decide, by decide, by decide, by decide⟩

end Operation

end ClientGen
