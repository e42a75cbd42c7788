import ClientGen.Proofs.TypeScript.RequestFunction
/-!
# Parameters in paths

The parameters of a request are put into its path one after the other. If no name and no identifier stands in the way,
this is the same as putting them in all at once: every token of the path is exchanged, and nothing else is.
-/

namespace ClientGen

open Text

theorem Text.substitute_of_none {step : Text → Option (Text × Nat)} (h : ∀ t, step t = none) (t : Text) :
    substitute step t = t := by
  induction t with
  | nil => rfl
  | cons c t ih => rw [substitute_cons_of_none (h _), ih]

theorem Text.substitute_congr {f g : Text → Option (Text × Nat)} {t : Text} (h : ∀ u, u <:+ t → f u = g u) :
    substitute f t = substitute g t := by
  have key : ∀ skip, substitute.go f skip t = substitute.go g skip t := by
    induction t with
    | nil => exact fun _ => rfl
    | cons c t ih =>
      have ih := ih fun u hu => h u (hu.trans (List.suffix_cons c t))
      intro skip
      cases skip with
      | succ k => exact ih k
      | zero => simp only [substitute.go, h _ List.suffix_rfl, ih]
  exact key 0

/-! ## Tokens -/

/-- Whether a token for a parameter begins with a character. -/
def opensToken (c : Char) : Bool := c == '\x7b' || c == ':'

private theorem opensToken_of_isIdentChar {c : Char} (h : isIdentChar c = true) : opensToken c = false := by
  simp [opensToken, ne_of_isIdentChar h (d := '\x7b') (by decide), ne_of_isIdentChar h (d := ':') (by decide)]

theorem Operation.interpolation_eq (p : Parameter) :
    interpolation p = '$' :: '\x7b' :: (Naming.paramIdentifier p.name ++ ['\x7d']) := by
  simp [interpolation]

/-- A step that replaces tokens: a token has no beginning of another one in it, and the step reads it without regard to
what else is replaced behind it. -/
structure IsTokenStep (step : Text → Option (Text × Nat)) : Prop where
  /-- Where it replaces something, it replaces a token. -/
  token : ∀ {t out n}, step t = some (out, n) → ∃ c w rest, t = c :: w ++ rest ∧ opensToken c = true ∧
    (∀ d ∈ w, opensToken d = false) ∧ n = w.length + 1
  interpolates : ∀ {t out n}, step t = some (out, n) → ∃ p, out = Operation.interpolation p
  /-- What it does depends only on the words that follow. -/
  reads_words : ∀ {c t t'},
    (∀ w : Text, (∀ d ∈ w, opensToken d = false) → w.getLast? ≠ some '$' → (w <+: t ↔ w <+: t')) →
      step (c :: t) = step (c :: t')

namespace IsTokenStep

variable {step f g : Text → Option (Text × Nat)}

theorem eq_none (h : IsTokenStep step) {c : Char} (hc : opensToken c = false) (t : Text) : step (c :: t) = none := by
  cases hs : step (c :: t) with
  | none => rfl
  | some found =>
    obtain ⟨d, w, rest, ht, hd, -⟩ := h.token hs
    rw [(List.cons_eq_cons.1 ht).1, hd] at hc
    cases hc

theorem substitute_word (h : IsTokenStep step) {w : Text} (hw : ∀ d ∈ w, opensToken d = false) (t : Text) :
    substitute step (w ++ t) = w ++ substitute step t := by
  induction w with
  | nil => rfl
  | cons c w ih =>
    rw [List.cons_append, substitute_cons_of_none (h.eq_none (hw c List.mem_cons_self) _),
      ih fun d hd => hw d (List.mem_cons_of_mem _ hd), List.cons_append]

theorem substitute_cases (h : IsTokenStep step) (c : Char) (t : Text) :
    (step (c :: t) = none ∧ substitute step (c :: t) = c :: substitute step t) ∨
      ∃ w rest p, t = w ++ rest ∧ opensToken c = true ∧ (∀ d ∈ w, opensToken d = false) ∧
        step (c :: t) = some (Operation.interpolation p, w.length + 1) ∧
        substitute step (c :: t) = Operation.interpolation p ++ substitute step rest := by
  cases hs : step (c :: t) with
  | none => exact .inl ⟨rfl, substitute_cons_of_none hs⟩
  | some found =>
    obtain ⟨out, n⟩ := found
    obtain ⟨d, w, rest, ht, hd, hw, rfl⟩ := h.token hs
    obtain ⟨rfl, rfl⟩ := List.cons_eq_cons.1 ht
    obtain ⟨p, rfl⟩ := h.interpolates hs
    have hat : step ((c :: w) ++ rest) = some (Operation.interpolation p, (c :: w).length) := hs
    exact .inr ⟨w, rest, p, rfl, hd, hw, rfl, substitute_append_of_some (List.cons_ne_nil _ _) hat⟩

/-- A word that ends in no sign of an interpolation follows exactly if it followed before the tokens were replaced. -/
theorem prefix_substitute_iff (h : IsTokenStep step) {w t : Text} (hw : ∀ d ∈ w, opensToken d = false)
    (hlast : w.getLast? ≠ some '$') : w <+: substitute step t ↔ w <+: t := by
  induction w generalizing t with
  | nil => simp
  | cons d w ih =>
    have hd : opensToken d = false := hw d List.mem_cons_self
    have hrest : ∀ e ∈ w, opensToken e = false := fun e he => hw e (List.mem_cons_of_mem _ he)
    cases t with
    | nil => simp
    | cons c t =>
      rcases h.substitute_cases c t with ⟨-, hsub⟩ | ⟨_, _, p, -, hc, -, -, hsub⟩
      · rw [hsub, List.cons_prefix_cons, List.cons_prefix_cons]
        refine and_congr_right fun _ => ?_
        cases w with
        | nil => simp
        | cons e w => exact ih hrest (by simpa using hlast)
      · -- the interpolation begins with a sign that no word goes on behind
        have hno : ¬d :: w <+: c :: t := by
          rintro hpre
          rw [(List.cons_prefix_cons.1 hpre).1, hc] at hd
          cases hd
        have hnot : ¬d :: w <+: substitute step (c :: t) := by
          rw [hsub, Operation.interpolation_eq, List.cons_append, List.cons_append]
          intro hpre
          obtain ⟨hsign, hbrace⟩ := List.cons_prefix_cons.1 hpre
          cases w with
          | nil => exact hlast (hsign ▸ rfl)
          | cons e w =>
            have he : opensToken e = false := hrest e List.mem_cons_self
            rw [(List.cons_prefix_cons.1 hbrace).1] at he
            cases he
        exact iff_of_false hnot hno

/-- Two replacements, one after the other, are one replacement of both kinds of tokens if the second one passes over
what the first one puts in. -/
theorem substitute_substitute (hf : IsTokenStep f) (hg : IsTokenStep g)
    (hpass : ∀ {t p n}, f t = some (Operation.interpolation p, n) → ∀ rest : Text,
      substitute g (Operation.interpolation p ++ rest) = Operation.interpolation p ++ substitute g rest) (t : Text) :
    substitute g (substitute f t) = substitute (fun t => (f t).or (g t)) t := by
  -- A replacement takes a token of any length away, so the induction is on the length of the text.
  induction h : t.length using Nat.strong_induction_on generalizing t with
  | _ n ih =>
  subst h
  cases t with
  | nil => rfl
  | cons c t =>
    rcases hf.substitute_cases c t with ⟨hnone, hsub⟩ | ⟨w, rest, p, rfl, -, -, hsome, hsub⟩
    · rw [hsub]
      -- only words behind the character count for `g`, and `f` keeps those
      have hsame : g (c :: substitute f t) = g (c :: t) :=
        hg.reads_words fun w hw hlast => hf.prefix_substitute_iff hw hlast
      rcases hg.substitute_cases c t with ⟨hgnone, -⟩ | ⟨w, rest, p, rfl, -, hw, hgsome, -⟩
      · rw [substitute_cons_of_none (hsame.trans hgnone), ih t.length (by simp) t rfl]
        exact (substitute_cons_of_none (by simp [hnone, hgnone])).symm
      · have hword : substitute f (w ++ rest) = w ++ substitute f rest := hf.substitute_word hw rest
        have hat : g ((c :: w) ++ substitute f rest) = some (Operation.interpolation p, (c :: w).length) := by
          rw [List.cons_append, ← hword, hsame, hgsome, List.length_cons]
        have hboth : (fun t => (f t).or (g t)) ((c :: w) ++ rest) =
            some (Operation.interpolation p, (c :: w).length) := by
          simp [hnone, hgsome]
        rw [hword, ← List.cons_append, substitute_append_of_some (List.cons_ne_nil _ _) hat,
          ih rest.length (by simp only [List.length_cons, List.length_append]; omega) rest rfl, ← List.cons_append,
          substitute_append_of_some (List.cons_ne_nil _ _) hboth]
    · have hboth : (fun t => (f t).or (g t)) ((c :: w) ++ rest) =
          some (Operation.interpolation p, (c :: w).length) := by
        simp [hsome]
      rw [hsub, hpass hsome, ih rest.length (by simp only [List.length_cons, List.length_append]; omega) rest rfl,
        ← List.cons_append, substitute_append_of_some (List.cons_ne_nil _ _) hboth]

theorem substitute_interpolation (h : IsTokenStep step) {p : Parameter} {rest : Text}
    (hnone : step ('\x7b' :: (Naming.paramIdentifier p.name ++ '\x7d' :: rest)) = none) :
    substitute step (Operation.interpolation p ++ rest) = Operation.interpolation p ++ substitute step rest := by
  have hword : ∀ d ∈ Naming.paramIdentifier p.name ++ ['\x7d'], opensToken d = false := by
    intro d hd
    rcases List.mem_append.1 hd with hd | hd
    · rcases Naming.mem_paramIdentifier hd with hi | ⟨rfl, -⟩
      · exact opensToken_of_isIdentChar hi
      · rfl
    · exact List.mem_singleton.1 hd ▸ rfl
  have hsign : step ('$' :: '\x7b' :: (Naming.paramIdentifier p.name ++ '\x7d' :: rest)) = none := h.eq_none rfl _
  have hinside := h.substitute_word hword rest
  rw [List.append_assoc, List.singleton_append] at hinside
  rw [Operation.interpolation_eq]
  simp only [List.cons_append, List.append_assoc, List.nil_append] at hinside ⊢
  rw [substitute_cons_of_none hsign, substitute_cons_of_none hnone, hinside]

theorem or (hf : IsTokenStep f) (hg : IsTokenStep g) : IsTokenStep fun t => (f t).or (g t) where
  token h := by
    rcases Option.or_eq_some_iff.1 h with h | ⟨-, h⟩
    · exact hf.token h
    · exact hg.token h
  interpolates h := by
    rcases Option.or_eq_some_iff.1 h with h | ⟨-, h⟩
    · exact hf.interpolates h
    · exact hg.interpolates h
  reads_words h := by rw [hf.reads_words h, hg.reads_words h]

protected theorem none : IsTokenStep fun _ => none where
  token h := nomatch h
  interpolates h := nomatch h
  reads_words _ := rfl

theorem findSome? {steps : Parameter → Text → Option (Text × Nat)} {ps : List Parameter}
    (h : ∀ p ∈ ps, IsTokenStep (steps p)) : IsTokenStep fun t => ps.findSome? (steps · t) := by
  induction ps with
  | nil => exact .none
  | cons p ps ih =>
    have hcons : (fun t => (p :: ps).findSome? (steps · t)) = fun t => (steps p t).or (ps.findSome? (steps · t)) := by
      funext t
      rw [List.findSome?_cons]
      cases steps p t <;> rfl
    rw [hcons]
    exact (h p List.mem_cons_self).or (ih fun q hq => h q (List.mem_cons_of_mem _ hq))

end IsTokenStep

namespace Operation

variable {p : Parameter}

/-- The name of a parameter that stands out from the path around it. -/
structure IsTokenName (name : Text) : Prop where
  no_token : ∀ c ∈ name, opensToken c = false
  no_brace : '\x7d' ∉ name
  last : name.getLast? ≠ some '$'

private theorem IsTokenName.word (h : IsTokenName p.name) {c : Char} (hc : opensToken c = false) :
    ∀ d ∈ p.name ++ [c], opensToken d = false :=
  List.forall_mem_append.2 ⟨h.no_token, List.forall_mem_singleton.2 hc⟩

/-- The token of a parameter in braces at the beginning of a text. -/
def bracedAt? (p : Parameter) (t : Text) : Option (Text × Nat) :=
  let token : Text := '\x7b' :: p.name ++ ['\x7d']
  if startsWith token t then some (interpolation p, token.length) else none

/-- The token of a parameter behind a colon at the beginning of a text; no character of a word follows it. -/
def colonAt? (p : Parameter) (t : Text) : Option (Text × Nat) :=
  let token : Text := ':' :: p.name
  match afterStart? token t with
  | some rest => if (rest.head?.map Naming.isColonChar).getD false then none else some (interpolation p, token.length)
  | none => none

/-- The token of a parameter at the beginning of a text. -/
def tokenAt? (p : Parameter) (t : Text) : Option (Text × Nat) := (bracedAt? p t).or (colonAt? p t)

/-- The token of one of the parameters at the beginning of a text. -/
def tokenOfAny? (ps : List Parameter) (t : Text) : Option (Text × Nat) := ps.findSome? (tokenAt? · t)

theorem bracedAt?_eq_some {t out : Text} {n : Nat} (h : bracedAt? p t = some (out, n)) :
    ('\x7b' :: p.name ++ ['\x7d']) <+: t ∧ out = interpolation p ∧ n = (p.name ++ ['\x7d']).length + 1 := by
  unfold bracedAt? at h
  dsimp only at h
  split at h
  · next hstart =>
    cases h
    exact ⟨startsWith_iff.1 hstart, rfl, by simp⟩
  · cases h

theorem isTokenStep_bracedAt? (h : IsTokenName p.name) : IsTokenStep (bracedAt? p) where
  token hs := by
    obtain ⟨⟨rest, rfl⟩, -, rfl⟩ := bracedAt?_eq_some hs
    exact ⟨'\x7b', p.name ++ ['\x7d'], rest, by simp, rfl, h.word rfl, rfl⟩
  interpolates hs := ⟨p, (bracedAt?_eq_some hs).2.1⟩
  reads_words := by
    intro c t t' hw
    have hiff : startsWith ('\x7b' :: p.name ++ ['\x7d']) (c :: t) =
        startsWith ('\x7b' :: p.name ++ ['\x7d']) (c :: t') := by
      rw [Bool.eq_iff_iff, startsWith_iff, startsWith_iff, List.cons_append, List.cons_prefix_cons,
        List.cons_prefix_cons, hw _ (h.word rfl) (by simp)]
    unfold bracedAt?
    dsimp only
    rw [hiff]

theorem colonAt?_eq_some_iff {t out : Text} {n : Nat} : colonAt? p t = some (out, n) ↔
    (':' :: p.name) <+: t ∧ (∀ d, Naming.isColonChar d = true → ¬(':' :: p.name ++ [d]) <+: t) ∧
      out = interpolation p ∧ n = p.name.length + 1 := by
  unfold colonAt?
  dsimp only
  cases hstart : afterStart? (':' :: p.name) t with
  | none =>
    have hno := afterStart?_eq_none_iff.1 hstart
    exact iff_of_false (fun h => nomatch h) fun h => hno h.1
  | some rest =>
    obtain rfl := afterStart?_eq_some_iff.1 hstart
    have hnext (d : Char) : (':' :: p.name ++ [d]) <+: ':' :: p.name ++ rest ↔ rest.head? = some d := by
      rw [List.prefix_append_right_inj]
      cases rest with
      | nil => simp
      | cons e rest => simp [eq_comm]
    have hfollowed : (∀ d, Naming.isColonChar d = true → ¬(':' :: p.name ++ [d]) <+: ':' :: p.name ++ rest) ↔
        (rest.head?.map Naming.isColonChar).getD false = false := by
      simp only [hnext]
      cases rest.head? with
      | none => simp
      | some e =>
        constructor
        · intro h
          simpa using fun he => h e he rfl
        · rintro he d hd ⟨⟩
          exact absurd hd (by simpa using he)
    rw [hfollowed]
    by_cases hcolon : (rest.head?.map Naming.isColonChar).getD false = true
    · simp [hcolon]
    · have hlength : (':' :: p.name).length = p.name.length + 1 := rfl
      have hstarts : (':' :: p.name) <+: ':' :: p.name ++ rest := List.prefix_append _ _
      simp only [hcolon, hstarts, hlength, Bool.false_eq_true, if_false, true_and, Option.some.injEq, Prod.mk.injEq]
      exact and_congr eq_comm eq_comm

theorem isTokenStep_colonAt? (h : IsTokenName p.name) : IsTokenStep (colonAt? p) where
  token hs := by
    obtain ⟨⟨rest, rfl⟩, -, -, rfl⟩ := colonAt?_eq_some_iff.1 hs
    exact ⟨':', p.name, rest, rfl, rfl, h.no_token, rfl⟩
  interpolates hs := ⟨p, (colonAt?_eq_some_iff.1 hs).2.2.1⟩
  reads_words := by
    intro c t t' hw
    have hcolon {d : Char} (hd : Naming.isColonChar d = true) : opensToken d = false ∧ d ≠ '$' := by
      have hi : isIdentChar d = true := by
        simp only [Naming.isColonChar, isIdentChar, isIdentStart, Bool.or_eq_true] at hd ⊢
        tauto
      refine ⟨opensToken_of_isIdentChar hi, ?_⟩
      rintro rfl
      exact absurd hd (by decide)
    have hname : (':' :: p.name) <+: c :: t ↔ (':' :: p.name) <+: c :: t' := by
      rw [List.cons_prefix_cons, List.cons_prefix_cons, hw _ h.no_token h.last]
    have hnext (d : Char) (hd : Naming.isColonChar d = true) :
        (':' :: p.name ++ [d]) <+: c :: t ↔ (':' :: p.name ++ [d]) <+: c :: t' := by
      rw [List.cons_append, List.cons_prefix_cons, List.cons_prefix_cons,
        hw _ (h.word (hcolon hd).1) (by simpa using (hcolon hd).2)]
    refine Option.ext fun found => ?_
    obtain ⟨out, n⟩ := found
    rw [colonAt?_eq_some_iff, colonAt?_eq_some_iff, hname]
    refine and_congr_right fun _ => and_congr_left' (forall_congr' fun d => ?_)
    refine imp_congr_right fun hd => not_congr (hnext d hd)

theorem eq_interpolation_of_tokenAt? {t out : Text} {n : Nat} (h : tokenAt? p t = some (out, n)) :
    out = interpolation p := by
  rcases Option.or_eq_some_iff.1 h with h | ⟨-, h⟩
  · exact (bracedAt?_eq_some h).2.1
  · exact (colonAt?_eq_some_iff.1 h).2.2.1

theorem isTokenStep_tokenAt? (h : IsTokenName p.name) : IsTokenStep (tokenAt? p) :=
  (isTokenStep_bracedAt? h).or (isTokenStep_colonAt? h)

theorem interpolate_eq (h : IsTokenName p.name) (path : Text) : interpolate path p = substitute (tokenAt? p) path := by
  have hpass : ∀ {t q n}, bracedAt? p t = some (interpolation q, n) → ∀ rest : Text,
      substitute (colonAt? p) (interpolation q ++ rest) = interpolation q ++ substitute (colonAt? p) rest := by
    intro t q n hs rest
    exact (isTokenStep_colonAt? h).substitute_interpolation rfl
  exact IsTokenStep.substitute_substitute (isTokenStep_bracedAt? h) (isTokenStep_colonAt? h) hpass path

theorem tokenOfAny?_cons (p : Parameter) (ps : List Parameter) :
    tokenOfAny? (p :: ps) = fun t => (tokenAt? p t).or (tokenOfAny? ps t) := by
  funext t
  unfold tokenOfAny?
  rw [List.findSome?_cons]
  cases tokenAt? p t <;> rfl

theorem tokenOfAny?_identifier {ps : List Parameter} (hnames : ∀ q ∈ ps, IsTokenName q.name)
    (h : ∀ q ∈ ps, Naming.paramIdentifier q.name ≠ Naming.paramIdentifier p.name) (rest : Text) :
    tokenOfAny? ps ('\x7b' :: (Naming.paramIdentifier p.name ++ '\x7d' :: rest)) = none := by
  have hbrace : '\x7d' ∉ Naming.paramIdentifier p.name := by
    intro hc
    rcases Naming.mem_paramIdentifier hc with hi | ⟨hl, -⟩
    · exact absurd hi (by decide)
    · exact absurd hl (by decide)
  refine List.findSome?_eq_none_iff.2 fun q hq => Option.or_eq_none_iff.2 ⟨?_, ?_⟩
  · cases hs : bracedAt? q ('\x7b' :: (Naming.paramIdentifier p.name ++ '\x7d' :: rest)) with
    | none => rfl
    | some found =>
      obtain ⟨⟨after, ht⟩, -⟩ := bracedAt?_eq_some hs
      simp only [List.cons_append, List.append_assoc, List.cons.injEq, List.nil_append, true_and] at ht
      have hname : q.name = Naming.paramIdentifier p.name := by
        have hsplit := congrArg (splitOn '\x7d') ht
        rw [splitOn_append_cons_of_notMem (hnames q hq).no_brace, splitOn_append_cons_of_notMem hbrace] at hsplit
        exact (List.cons_eq_cons.1 hsplit).1
      exact absurd (hname ▸ Naming.paramIdentifier_paramIdentifier p.name) (h q hq)
  · cases hs : colonAt? q ('\x7b' :: (Naming.paramIdentifier p.name ++ '\x7d' :: rest)) with
    | none => rfl
    | some found =>
      obtain ⟨⟨after, ht⟩, -⟩ := colonAt?_eq_some_iff.1 hs
      exact absurd (List.cons_eq_cons.1 ht).1 (by decide)

theorem foldl_interpolate {ps : List Parameter} (hnames : ∀ p ∈ ps, IsTokenName p.name)
    (hdistinct : (ps.map fun p => Naming.paramIdentifier p.name).Nodup) (path : Text) :
    ps.foldl interpolate path = substitute (tokenOfAny? ps) path := by
  induction ps generalizing path with
  | nil => exact (substitute_of_none (fun _ => rfl) path).symm
  | cons p ps ih =>
    obtain ⟨hp, hps⟩ := List.forall_mem_cons.1 hnames
    obtain ⟨hnew, hdistinct⟩ := List.nodup_cons.1 hdistinct
    have hstep : IsTokenStep (tokenOfAny? ps) := .findSome? fun q hq => isTokenStep_tokenAt? (hps q hq)
    have hpass : ∀ {t q n}, tokenAt? p t = some (interpolation q, n) → ∀ rest : Text,
        substitute (tokenOfAny? ps) (interpolation q ++ rest) =
          interpolation q ++ substitute (tokenOfAny? ps) rest := by
      intro t q n hs rest
      rw [eq_interpolation_of_tokenAt? hs]
      refine hstep.substitute_interpolation (tokenOfAny?_identifier hps (fun q hq heq => ?_) rest)
      exact hnew (List.mem_map.2 ⟨q, hq, heq⟩)
    rw [List.foldl_cons, ih hps hdistinct, interpolate_eq hp,
      (isTokenStep_tokenAt? hp).substitute_substitute hstep hpass, tokenOfAny?_cons]

/-- The path of a request with its parameters put in. -/
def pathText (o : Operation) : Text := o.pathParams.foldl interpolate o.cleanPath

/-- The quote around the path of a request. -/
def pathQuote (o : Operation) : Char := if o.pathParams.isEmpty then '\'' else '\x60'

theorem requestPath_eq (o : Operation) : o.requestPath = o.pathQuote :: o.pathText ++ [o.pathQuote] := rfl

/-- The identifiers of the path parameters. -/
def pathIdentifiers (o : Operation) : List Text := o.pathParams.map fun p => Naming.paramIdentifier p.name

/-- The names of the path parameters, as documented. -/
def pathNames (o : Operation) : List Text := o.pathParams.map Parameter.name

theorem pathIdentifiers_eq_map (o : Operation) : o.pathIdentifiers = o.pathNames.map Naming.paramIdentifier := by
  rw [pathIdentifiers, pathNames, List.map_map]
  rfl

theorem pathText_eq {o : Operation} (hnames : ∀ p ∈ o.pathParams, IsTokenName p.name)
    (hdistinct : o.pathIdentifiers.Nodup) : o.pathText = substitute (tokenOfAny? o.pathParams) o.cleanPath :=
  foldl_interpolate hnames hdistinct o.cleanPath

end Operation

end ClientGen
