import ClientGen.Proofs.TypeScript.Interpolation
import Mathlib.Data.List.Nodup
/-!
# Values of request paths

The path of a request with parameters is a template literal. Its value is the path with the values of the parameters
put in for their tokens, all at once and whatever the order of the parameters.
-/

namespace ClientGen

open Text

namespace Source

/-! ## Template literals -/

/-- The value of the rest of a template literal; inside an interpolation, `name?` is what is read of its name. A carriage
return is read as a line feed, together with the line feed behind it if there is one. Where the literal is not closed at
the end of the text, has an escape in it or interpolates anything but a name in scope, no value is given. -/
def templateRest? (scope : Text → Option Text) : (name? : Option Text) → Text → Option Text
  | _, [] => none
  | some name, c :: t =>
    if c = '\x7d' then
      if isIdentifier name then (scope name).bind fun v => (templateRest? scope none t).map (v ++ ·) else none
    else templateRest? scope (some (name ++ [c])) t
  | none, '$' :: '\x7b' :: t => templateRest? scope (some []) t
  | none, '\r' :: '\n' :: t => (templateRest? scope none t).map ('\n' :: ·)
  | none, c :: t =>
    if c = '\x60' then if t = [] then some [] else none
    else if c = '\\' then none
    else if c = '\r' then (templateRest? scope none t).map ('\n' :: ·)
    else (templateRest? scope none t).map (c :: ·)

/-- The value of a template literal where names have the values that `scope` gives them. -/
def templateValue? (scope : Text → Option Text) : Text → Option Text
  | [] => none
  | c :: t => if c = '\x60' then templateRest? scope none t else none

variable {scope : Text → Option Text}

theorem templateRest?_close : templateRest? scope none ['\x60'] = some [] := by
  simp [templateRest?]

theorem templateRest?_char {c : Char} (h : c ≠ '\x60' ∧ c ≠ '\\' ∧ c ≠ '$' ∧ c ≠ '\r') (t : Text) :
    templateRest? scope none (c :: t) = (templateRest? scope none t).map (c :: ·) := by
  rw [templateRest?]
  · rw [if_neg h.1, if_neg h.2.1, if_neg h.2.2.2]
  · intro _ hc
    exact absurd hc h.2.2.1
  · intro _ hc
    exact absurd hc h.2.2.2

theorem templateRest?_lineEnd (t : Text) :
    templateRest? scope none ('\r' :: '\n' :: t) = (templateRest? scope none t).map ('\n' :: ·) := by
  rw [templateRest?]

theorem templateRest?_return {t : Text} (h : t.head? ≠ some '\n') :
    templateRest? scope none ('\r' :: t) = (templateRest? scope none t).map ('\n' :: ·) := by
  rw [templateRest?]
  · rw [if_neg (by decide), if_neg (by decide), if_pos rfl]
  · intro _ hc
    cases hc
  · rintro s - rfl
    exact h rfl

private theorem templateRest?_name {w : Text} (hw : '\x7d' ∉ w) (name t : Text) :
    templateRest? scope (some name) (w ++ '\x7d' :: t) = templateRest? scope (some (name ++ w)) ('\x7d' :: t) := by
  induction w generalizing name with
  | nil => rw [List.nil_append, List.append_nil]
  | cons c w ih =>
    rw [List.mem_cons, not_or] at hw
    rw [List.cons_append, templateRest?, if_neg (Ne.symm hw.1), ih hw.2, List.append_assoc, List.singleton_append]

theorem templateRest?_interpolation {name v : Text} (hname : isIdentifier name = true) (hv : scope name = some v)
    (t : Text) : templateRest? scope none ('$' :: '\x7b' :: (name ++ '\x7d' :: t)) =
      (templateRest? scope none t).map (v ++ ·) := by
  have hbrace : '\x7d' ∉ name := fun h => absurd (isIdentChar_of_mem hname _ h) (by decide)
  rw [templateRest?, templateRest?_name hbrace, List.nil_append, templateRest?, if_pos rfl, if_pos hname, hv,
    Option.bind_some]

end Source

namespace Operation

/-! ## Tokens -/

/-- A name that is a word: letters, digits and underscores, not a digit first. -/
def IsWordName (name : Text) : Prop :=
  name.head?.any (!isDigit ·) = true ∧ ∀ c ∈ name, Naming.isColonChar c = true

instance (name : Text) : Decidable (IsWordName name) := inferInstanceAs (Decidable (_ ∧ _))

namespace IsWordName

variable {name : Text}

theorem isIdentifier (h : IsWordName name) : Text.isIdentifier name = true := by
  obtain ⟨hhead, hall⟩ := h
  have hword {d : Char} (hd : Naming.isColonChar d = true) : isLetter d = true ∨ isDigit d = true ∨ d = '_' := by
    simpa [Naming.isColonChar, or_assoc] using hd
  cases name with
  | nil => cases hhead
  | cons d name =>
    have hdigit : isDigit d = false := by simpa using hhead
    refine isIdentifier_iff.2 ⟨d, name, rfl, ?_, fun e he => ?_⟩
    · rcases hword (hall d List.mem_cons_self) with h | h | h
      · simp [isIdentStart, h]
      · simp [hdigit] at h
      · simp [isIdentStart, h]
    · rcases hword (hall e (List.mem_cons_of_mem _ he)) with h | h | h <;> simp [isIdentChar, isIdentStart, h]

theorem isTokenName (h : IsWordName name) : IsTokenName name := by
  have hno (c : Char) (hc : Naming.isColonChar c = false) : c ∉ name := fun hmem => by
    rw [h.2 c hmem] at hc
    cases hc
  refine ⟨fun c hc => ?_, hno _ (by decide), fun hlast => hno '$' (by decide) (List.mem_of_getLast? hlast)⟩
  have hopen : c ≠ '\x7b' ∧ c ≠ ':' := ⟨fun h => hno '\x7b' (by decide) (h ▸ hc), fun h => hno ':' (by decide) (h ▸ hc)⟩
  simp [opensToken, hopen]

theorem paramIdentifier_eq (h : IsWordName name) : Naming.paramIdentifier name = name :=
  Naming.paramIdentifier_of_isBareName (Naming.isBareName_iff.2 (.inl h.isIdentifier))

end IsWordName

variable {p q : Parameter} {ps qs : List Parameter} {t : Text}

theorem takeWhile_of_tokenAt? (h : IsWordName p.name) {found : Text × Nat} (ht : tokenAt? p t = some found) :
    t.tail.takeWhile Naming.isColonChar = p.name := by
  rcases Option.or_eq_some_iff.1 ht with ht | ⟨-, ht⟩
  · obtain ⟨⟨rest, rfl⟩, -⟩ := bracedAt?_eq_some ht
    have htail : ('\x7b' :: p.name ++ ['\x7d'] ++ rest).tail = p.name ++ '\x7d' :: rest := by simp
    have hbrace : Naming.isColonChar '\x7d' = false := by decide
    rw [htail, List.takeWhile_append_of_pos h.2, List.takeWhile_cons_of_neg (by simp [hbrace]), List.append_nil]
  · obtain ⟨⟨rest, rfl⟩, hnext, -⟩ := colonAt?_eq_some_iff.1 ht
    have htail : (':' :: p.name ++ rest).tail = p.name ++ rest := rfl
    rw [htail, List.takeWhile_append_of_pos h.2]
    cases rest with
    | nil => rw [List.takeWhile_nil, List.append_nil]
    | cons c rest =>
      have hc : ¬Naming.isColonChar c = true := fun hc => hnext c hc ⟨rest, by simp⟩
      rw [List.takeWhile_cons_of_neg hc, List.append_nil]

/-- The parameter with a token at the beginning of a text, and the length of the token. -/
def foundToken? (ps : List Parameter) (t : Text) : Option (Parameter × Nat) :=
  ps.findSome? fun p => (tokenAt? p t).map fun found => (p, found.2)

/-- The token of a parameter at the beginning of a text, exchanged for what `f` gives for the parameter. -/
def exchange (f : Parameter → Text) (ps : List Parameter) (t : Text) : Option (Text × Nat) :=
  (foundToken? ps t).map fun found => (f found.1, found.2)

theorem tokenOfAny?_eq (ps : List Parameter) : tokenOfAny? ps = exchange interpolation ps := by
  funext t
  rw [exchange, foundToken?, List.map_findSome?, tokenOfAny?]
  congr 1
  funext p
  cases ht : tokenAt? p t with
  | none => simp [ht]
  | some found => simp [ht, ← eq_interpolation_of_tokenAt? ht]

theorem isTokenStep_exchange (hwords : ∀ p ∈ ps, IsWordName p.name) : IsTokenStep (exchange interpolation ps) := by
  rw [← tokenOfAny?_eq]
  exact .findSome? fun p hp => isTokenStep_tokenAt? (hwords p hp).isTokenName

theorem mem_of_foundToken? {n : Nat} (h : foundToken? ps t = some (p, n)) :
    p ∈ ps ∧ tokenAt? p t = some (interpolation p, n) := by
  obtain ⟨q, hq, hat⟩ := List.exists_of_findSome?_eq_some h
  obtain ⟨⟨out, m⟩, ht, heq⟩ := Option.map_eq_some_iff.1 hat
  obtain ⟨rfl, rfl⟩ := Prod.mk.inj heq
  exact ⟨hq, eq_interpolation_of_tokenAt? ht ▸ ht⟩

theorem foundToken?_eq_some_iff (hwords : ∀ p ∈ ps, IsWordName p.name) (hdistinct : (ps.map Parameter.name).Nodup)
    {n : Nat} : foundToken? ps t = some (p, n) ↔ p ∈ ps ∧ tokenAt? p t = some (interpolation p, n) := by
  refine ⟨mem_of_foundToken?, fun ⟨hp, ht⟩ => ?_⟩
  have hfound : (foundToken? ps t).isSome := List.findSome?_isSome_iff.2 ⟨p, hp, by simp [ht]⟩
  obtain ⟨⟨q, m⟩, hq⟩ := Option.isSome_iff_exists.1 hfound
  obtain ⟨hmem, hat⟩ := mem_of_foundToken? hq
  have hname : q.name = p.name :=
    (takeWhile_of_tokenAt? (hwords q hmem) hat).symm.trans (takeWhile_of_tokenAt? (hwords p hp) ht)
  obtain rfl : q = p := List.inj_on_of_nodup_map hdistinct hmem hp hname
  obtain rfl : m = n := by simpa using hat.symm.trans ht
  exact hq

theorem exchange_perm (hwords : ∀ p ∈ ps, IsWordName p.name) (hdistinct : (ps.map Parameter.name).Nodup)
    (hperm : qs.Perm ps) (f : Parameter → Text) : exchange f qs = exchange f ps := by
  have hwords' : ∀ p ∈ qs, IsWordName p.name := fun p hp => hwords p (hperm.mem_iff.1 hp)
  have hdistinct' : (qs.map Parameter.name).Nodup := (hperm.map Parameter.name).nodup_iff.2 hdistinct
  funext t
  have hfound : foundToken? qs t = foundToken? ps t := Option.ext fun found => by
    obtain ⟨p, n⟩ := found
    rw [foundToken?_eq_some_iff hwords hdistinct, foundToken?_eq_some_iff hwords' hdistinct', hperm.mem_iff]
  rw [exchange, exchange, hfound]

/-! ## Values -/

/-- The line end at the beginning of a text as a template literal reads it: a carriage return, with the line feed behind
it if there is one, is a line feed. -/
def lineEndAt? : Text → Option (Text × Nat)
  | '\r' :: '\n' :: _ => some (['\n'], 2)
  | '\r' :: _ => some (['\n'], 1)
  | _ => none

theorem lineEndAt?_eq_none_iff {c : Char} {t : Text} : lineEndAt? (c :: t) = none ↔ c ≠ '\r' := by
  constructor
  · rintro h rfl
    unfold lineEndAt? at h
    split at h <;> simp_all
  · intro hc
    unfold lineEndAt?
    split <;> simp_all

theorem templateRest?_lineEndAt? {step : Text → Option (Text × Nat)} (hstep : IsTokenStep step)
    (scope : Text → Option Text) {out : Text} {n : Nat} (h : lineEndAt? t = some (out, n)) :
    ∃ a rest, t = a ++ rest ∧ a ≠ [] ∧ n = a.length ∧
      Source.templateRest? scope none (substitute step t ++ ['\x60']) =
        (Source.templateRest? scope none (substitute step rest ++ ['\x60'])).map (out ++ ·) := by
  unfold lineEndAt? at h
  split at h
  · next rest =>
    cases h
    refine ⟨['\r', '\n'], rest, rfl, by simp, rfl, ?_⟩
    rw [substitute_cons_of_none (hstep.eq_none rfl _), substitute_cons_of_none (hstep.eq_none rfl _)]
    exact Source.templateRest?_lineEnd _
  · next rest hnext =>
    cases h
    refine ⟨['\r'], rest, rfl, by simp, rfl, ?_⟩
    -- no line feed comes to stand behind the carriage return
    have hhead : (substitute step rest ++ ['\x60']).head? ≠ some '\n' := by
      intro hlf
      have hword : ['\n'] <+: substitute step rest := by
        cases hs : substitute step rest with
        | nil => simp [hs] at hlf
        | cons d s =>
          obtain rfl : d = '\n' := by simpa [hs] using hlf
          exact ⟨s, rfl⟩
      obtain ⟨t, rfl⟩ := (hstep.prefix_substitute_iff (by simp [opensToken]) (by simp)).1 hword
      exact hnext t rfl
    rw [substitute_cons_of_none (hstep.eq_none rfl _)]
    exact Source.templateRest?_return hhead
  · cases h

theorem templateRest?_substitute {scope : Text → Option Text} {values : Parameter → Text}
    (hwords : ∀ p ∈ ps, IsWordName p.name) (hscope : ∀ p ∈ ps, scope p.name = some (values p))
    (hplain : ∀ c ∈ t, c ≠ '$' ∧ c ≠ '\x60' ∧ c ≠ '\\') :
    Source.templateRest? scope none (substitute (exchange interpolation ps) t ++ ['\x60']) =
      some (substitute (fun t => (exchange values ps t).or (lineEndAt? t)) t) := by
  have hstep := isTokenStep_exchange hwords
  -- A token is left behind at once, so the induction is on the length of the text.
  induction h : t.length using Nat.strong_induction_on generalizing t with
  | _ n ih =>
  subst h
  have hshorter {a rest : Text} (ht : t = a ++ rest) (ha : a ≠ []) :=
    ih rest.length (by have := List.length_pos_iff.2 ha; simp [ht]; omega) (t := rest)
      (fun c hc => hplain c (ht ▸ List.mem_append_right a hc)) rfl
  cases t with
  | nil => exact Source.templateRest?_close
  | cons c t =>
    cases hfound : foundToken? ps (c :: t) with
    | some found =>
      obtain ⟨p, n⟩ := found
      have hi : exchange interpolation ps (c :: t) = some (interpolation p, n) := by rw [exchange, hfound]; rfl
      obtain ⟨d, w, rest, ht, -, -, rfl⟩ := hstep.token hi
      have hp : p ∈ ps := (mem_of_foundToken? hfound).1
      have hread := hshorter ht (List.cons_ne_nil _ _)
      rw [ht] at hi hfound ⊢
      have hboth : (fun t => (exchange values ps t).or (lineEndAt? t)) ((d :: w) ++ rest) =
          some (values p, (d :: w).length) := by
        simp only [exchange, hfound]
        rfl
      rw [substitute_append_of_some (List.cons_ne_nil _ _) hi, substitute_append_of_some (List.cons_ne_nil _ _) hboth,
        interpolation_eq, (hwords p hp).paramIdentifier_eq]
      simp only [List.cons_append, List.append_assoc, List.nil_append]
      rw [Source.templateRest?_interpolation (hwords p hp).isIdentifier (hscope p hp), hread, Option.map_some]
    | none =>
      have hvalue : exchange values ps (c :: t) = none := by rw [exchange, hfound]; rfl
      cases hend : lineEndAt? (c :: t) with
      | some found =>
        obtain ⟨out, n⟩ := found
        obtain ⟨a, rest, ht, ha, rfl, hread⟩ := templateRest?_lineEndAt? hstep scope hend
        have hboth : (fun t => (exchange values ps t).or (lineEndAt? t)) (a ++ rest) = some (out, a.length) := by
          simp only [← ht, hvalue, hend]
          rfl
        rw [hread, hshorter ht ha, ht, substitute_append_of_some ha hboth, Option.map_some]
      | none =>
        have hi : exchange interpolation ps (c :: t) = none := by rw [exchange, hfound]; rfl
        have hboth : (fun t => (exchange values ps t).or (lineEndAt? t)) (c :: t) = none := by simp [hvalue, hend]
        obtain ⟨hdollar, hquote, hescape⟩ := hplain c List.mem_cons_self
        rw [substitute_cons_of_none hi, substitute_cons_of_none hboth, List.cons_append,
          Source.templateRest?_char ⟨hquote, hescape, hdollar, lineEndAt?_eq_none_iff.1 hend⟩,
          hshorter (a := [c]) rfl (by simp), Option.map_some]

theorem substitute_or_lineEndAt? {step : Text → Option (Text × Nat)} (h : '\r' ∉ t) :
    substitute (fun t => (step t).or (lineEndAt? t)) t = substitute step t := by
  refine substitute_congr fun u hu => ?_
  have hnone : lineEndAt? u = none := by
    cases u with
    | nil => rfl
    | cons c u => exact lineEndAt?_eq_none_iff.2 (ne_of_mem_of_not_mem (hu.subset List.mem_cons_self) h)
  rw [hnone, Option.or_none]

/-- The values of the names that the path parameters of an operation have in its function. -/
def scope (o : Operation) (values : Text → Text) (name : Text) : Option Text :=
  if name ∈ o.pathIdentifiers then some (values name) else none

/-- An operation whose path parameters are named by different words, and whose path has no sign of a template. -/
structure HasPlainTemplate (o : Operation) : Prop where
  params : o.pathParams ≠ []
  words : ∀ p ∈ o.pathParams, IsWordName p.name
  distinct : o.pathNames.Nodup
  plain : ∀ c ∈ o.cleanPath, c ≠ '$' ∧ c ≠ '\x60' ∧ c ≠ '\\'

namespace HasPlainTemplate

variable {o : Operation}

theorem scope_of_mem (h : o.HasPlainTemplate) (values : Text → Text) (hp : p ∈ o.pathParams) :
    o.scope values p.name = some (values p.name) :=
  if_pos (List.mem_map.2 ⟨p, hp, (h.words p hp).paramIdentifier_eq⟩)

theorem requestPath_eq_exchange (h : o.HasPlainTemplate) :
    o.requestPath = '\x60' :: substitute (exchange interpolation o.pathParams) o.cleanPath ++ ['\x60'] := by
  have hquote : o.pathQuote = '\x60' := if_neg (by simpa using h.params)
  have hids : o.pathIdentifiers = o.pathNames := List.map_congr_left fun p hp => (h.words p hp).paramIdentifier_eq
  rw [requestPath_eq, hquote, pathText_eq (fun p hp => (h.words p hp).isTokenName) (hids ▸ h.distinct), tokenOfAny?_eq]

theorem perm (h : o.HasPlainTemplate) (hperm : ps.Perm o.pathParams) :
    { o with pathParams := ps }.HasPlainTemplate where
  params hnil := h.params (List.nil_perm.1 (hnil ▸ hperm))
  words p hp := h.words p (hperm.mem_iff.1 hp)
  distinct := (hperm.map Parameter.name).nodup_iff.2 h.distinct
  plain := h.plain

end HasPlainTemplate

/-- The path of a request with parameters is a template literal, and its value is the cleaned path with the values of
the parameters put in for all their tokens at once; a carriage return of the path, with the line feed behind it if there
is one, is read as a line feed. The order of the parameters does not matter. -/
theorem value_requestPath {o : Operation} (h : o.HasPlainTemplate) :
    (∀ values : Text → Text, Source.templateValue? (o.scope values) o.requestPath =
      some (substitute (fun t => (exchange (fun p => values p.name) o.pathParams t).or (lineEndAt? t)) o.cleanPath)) ∧
    ('\r' ∉ o.cleanPath → ∀ values : Text → Text, Source.templateValue? (o.scope values) o.requestPath =
      some (substitute (exchange (fun p => values p.name) o.pathParams) o.cleanPath)) ∧
    ∀ params : List Parameter, params.Perm o.pathParams →
      { o with pathParams := params }.requestPath = o.requestPath ∧
      ∀ f, exchange f params = exchange f o.pathParams := by
  have hvalue (values : Text → Text) : Source.templateValue? (o.scope values) o.requestPath =
      some (substitute (fun t => (exchange (fun p => values p.name) o.pathParams t).or (lineEndAt? t)) o.cleanPath) := by
    rw [h.requestPath_eq_exchange, List.cons_append, Source.templateValue?, if_pos rfl]
    exact templateRest?_substitute h.words (fun p hp => h.scope_of_mem values hp) h.plain
  refine ⟨hvalue, fun hreturn values => ?_, fun params hperm => ?_⟩
  · rw [hvalue, substitute_or_lineEndAt? hreturn]
  · have hsame := exchange_perm h.words h.distinct hperm
    refine ⟨?_, hsame⟩
    rw [h.requestPath_eq_exchange, (h.perm hperm).requestPath_eq_exchange, hsame]

private def keyOfUser : Operation where
  cleanPath := "/users/\x7bid\x7d/:key-\x7bkey\x7d".toList
  pathParams := [{ name := "id".toList }, { name := "key".toList }]

/-- A value that looks like a token stays as it is. -/
theorem value_requestPath_keyOfUser :
    (keyOfUser.HasPlainTemplate ∧ '\r' ∉ keyOfUser.cleanPath) ∧
    keyOfUser.requestPath = "\x60/users/$\x7bid\x7d/$\x7bkey\x7d-$\x7bkey\x7d\x60".toList ∧
    Source.templateValue? (keyOfUser.scope fun name => ":key/\x7b".toList ++ name) keyOfUser.requestPath =
      some "/users/:key/\x7bid/:key/\x7bkey-:key/\x7bkey".toList := by
  have hplain : keyOfUser.HasPlainTemplate := ⟨by decide, by decide, by decide, by decide⟩
  have hreturn : '\r' ∉ keyOfUser.cleanPath := by decide
  refine ⟨⟨hplain, hreturn⟩, by decide, ?_⟩
  rw [(value_requestPath hplain).2.1 hreturn]
  decide

/-- A carriage return of the path comes out as a line feed. -/
theorem carriage_return_in_requestPath : ∃ (o : Operation) (values : Text → Text), o.HasPlainTemplate ∧
    substitute (exchange (fun p => values p.name) o.pathParams) o.cleanPath = "/a\r/7".toList ∧
    Source.templateValue? (o.scope values) o.requestPath = some "/a\n/7".toList := by
  refine ⟨{ cleanPath := "/a\r/\x7bid\x7d".toList, pathParams := [{ name := "id".toList }] }, fun _ => "7".toList,
    ⟨?_, ?_, ?_, ?_⟩, ?_, ?_⟩ <;> decide

end Operation

end ClientGen
