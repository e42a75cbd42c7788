import ClientGen.Proofs.Naming
/-!
# The syntax of parameters

A parameter is a segment of a path, in braces or behind a colon. Both are exchanged for one segment that names the
parameter before the name of a request function is made, so the name does not tell them apart.
-/

namespace ClientGen.Naming

open Text

/-- A segment of a path. -/
inductive Segment where
  | fixed (t : Text)
  | parameter (name : Text)

namespace Segment

/-- A parameter is named by ASCII letters, digits and underscores, no digit first; other text has neither braces nor
colons. -/
def IsProper : Segment → Prop
  | fixed t => ∀ c ∈ t, c ≠ '\x7b' ∧ c ≠ '\x7d' ∧ c ≠ ':'
  | parameter name =>
    ∃ c cs, name = c :: cs ∧ (isLetter c || c == '_') = true ∧ ∀ d ∈ cs, (isLetter d || isDigit d || d == '_') = true

/-- The texts that write a segment. -/
inductive Writes : Segment → Text → Prop
  | fixed (t : Text) : Writes (fixed t) t
  | braces (name : Text) : Writes (parameter name) ('\x7b' :: name ++ ['\x7d'])
  | colon (name : Text) : Writes (parameter name) (':' :: name)

/-- The segment that a name is made of. -/
def named : Segment → Text
  | fixed t => t
  | parameter name => byName name

end Segment

variable {s : Segment} {name t w : Text}

/-! ## One segment -/

private theorem isColonChar_of_proper (h : (Segment.parameter name).IsProper) : ∀ c ∈ name, isColonChar c = true := by
  obtain ⟨c, cs, rfl, hc, hcs⟩ := h
  intro d hd
  rcases List.mem_cons.1 hd with rfl | hd
  · simp only [Bool.or_eq_true] at hc
    rcases hc with hc | hc <;> simp [isColonChar, hc]
  · exact hcs d hd

private theorem isIdentChar_of_isColonChar {c : Char} (h : isColonChar c = true) : isIdentChar c = true := by
  simp only [isColonChar, Bool.or_eq_true] at h
  rcases h with (h | h) | h <;> simp [isIdentChar, isIdentStart, h]

private theorem ne_of_isColonChar {c d : Char} (h : isColonChar c = true) (hd : isIdentChar d = false) : c ≠ d :=
  ne_of_isIdentChar (isIdentChar_of_isColonChar h) hd

private theorem substitute_append_of_notMem {step : Text → Option (Text × Nat)} {o : Char}
    (hstep : ∀ c cs, c ≠ o → step (c :: cs) = none) (h : o ∉ t) (r : Text) :
    substitute step (t ++ r) = t ++ substitute step r := by
  induction t with
  | nil => rfl
  | cons c t ih =>
    rw [List.mem_cons, not_or] at h
    rw [List.cons_append, substitute_cons_of_none (hstep c _ (Ne.symm h.1)), ih h.2, List.cons_append]

private theorem bracedAt_of_ne (c : Char) (cs : Text) (h : c ≠ '\x7b') : bracedAt (c :: cs) = none := by
  simp [bracedAt, h]

private theorem colonAt_of_ne (c : Char) (cs : Text) (h : c ≠ ':') : colonAt (c :: cs) = none := by
  unfold colonAt
  split
  · next heq => exact absurd (List.cons_eq_cons.1 heq).1 h
  · rfl

private theorem substitute_braces (h : (Segment.parameter name).IsProper) (r : Text) :
    substitute bracedAt ('\x7b' :: name ++ ['\x7d'] ++ r) = byName name ++ substitute bracedAt r := by
  have hname := isColonChar_of_proper h
  have hne : name ≠ [] := by
    obtain ⟨c, cs, rfl, -⟩ := h
    exact List.cons_ne_nil c cs
  have hall : ∀ c ∈ name, (c ≠ '\x7d' : Bool) = true := fun c hc => by
    simpa using ne_of_isColonChar (hname c hc) (d := '\x7d') (by decide)
  have htake : (name ++ '\x7d' :: r).takeWhile (· ≠ '\x7d') = name := by
    rw [List.takeWhile_append_of_pos hall]
    simp
  have hat : bracedAt ('\x7b' :: (name ++ '\x7d' :: r)) = some (byName name, name.length + 2) := by
    rw [bracedAt, htake]
    simp [hne]
  refine substitute_append_of_some (by simp) ?_
  simpa using hat

private theorem substitute_colon (h : (Segment.parameter name).IsProper) {r : Text}
    (hr : ∀ c ∈ r.head?, isColonChar c = false) :
    substitute colonAt (':' :: name ++ r) = byName name ++ substitute colonAt r := by
  have hname := isColonChar_of_proper h
  have htake : (name ++ r).takeWhile isColonChar = name := by
    rw [List.takeWhile_append_of_pos hname]
    cases r with
    | nil => simp
    | cons c r => simp [hr c (by simp)]
  obtain ⟨c, cs, rfl, hc, -⟩ := h
  have hdigit : isDigit c = false := by
    have hfirst : ∀ c : Char, c.toNat < 128 → (isLetter c || c == '_') = true → isDigit c = false :=
      forall_toNat_lt (by decide)
    exact hfirst c (lt_of_isIdentChar (isIdentChar_of_isColonChar (hname c List.mem_cons_self))) hc
  refine substitute_append_of_some (by simp) ?_
  rw [List.cons_append] at htake
  simp only [List.cons_append, colonAt, hname c List.mem_cons_self, hdigit, htake]
  rfl

private theorem notMem_byName (h : (Segment.parameter name).IsProper) : ':' ∉ byName name := by
  have hname := isColonChar_of_proper h
  have hpascal := isIdentChar_of_mem_pascalCase fun c hc => isIdentChar_of_isColonChar (hname c hc)
  intro hc
  rcases List.mem_append.1 hc with hc | hc
  · exact absurd hc (by decide)
  · exact absurd (hpascal _ hc) (by decide)

private theorem passes_over_segment (hs : s.IsProper) (hw : s.Writes w) :
    ∃ m, (∀ r, substitute bracedAt (w ++ r) = m ++ substitute bracedAt r) ∧
      ∀ r : Text, (∀ c ∈ r.head?, isColonChar c = false) →
        substitute colonAt (m ++ r) = s.named ++ substitute colonAt r := by
  cases hw with
  | fixed =>
    have hbrace : '\x7b' ∉ w := fun h => (hs _ h).1 rfl
    have hcolon : ':' ∉ w := fun h => (hs _ h).2.2 rfl
    exact ⟨w, substitute_append_of_notMem bracedAt_of_ne hbrace,
      fun r _ => substitute_append_of_notMem colonAt_of_ne hcolon r⟩
  | braces name =>
    exact ⟨byName name, substitute_braces hs,
      fun r _ => substitute_append_of_notMem colonAt_of_ne (notMem_byName hs) r⟩
  | colon name =>
    have hbrace : '\x7b' ∉ ':' :: name := by
      intro h
      rcases List.mem_cons.1 h with h | h
      · exact absurd h (by decide)
      · exact ne_of_isColonChar (isColonChar_of_proper hs _ h) (by decide) rfl
    exact ⟨':' :: name, substitute_append_of_notMem bracedAt_of_ne hbrace, fun r => substitute_colon hs⟩

/-! ## Paths -/

private theorem passes_over_path {segments : List Segment} {ws : List Text} (hs : ∀ s ∈ segments, s.IsProper)
    (hw : List.Forall₂ Segment.Writes segments ws) :
    substitute colonAt (substitute bracedAt (join ['/'] ws)) = join ['/'] (segments.map Segment.named) := by
  have key : ∃ ms, substitute bracedAt (join ['/'] ws) = ms ∧
      substitute colonAt ms = join ['/'] (segments.map Segment.named) := by
    induction hw with
    | nil => exact ⟨[], rfl, rfl⟩
    | @cons s w segments ws hsw hrest ih =>
      obtain ⟨m, hbraces, hcolon⟩ := passes_over_segment (hs s List.mem_cons_self) hsw
      obtain ⟨ms, hms, hnamed⟩ := ih fun s' hs' => hs s' (List.mem_cons_of_mem s hs')
      cases hrest with
      | nil =>
        have hb := hbraces []
        have hc := hcolon [] (by simp)
        simp only [List.append_nil, substitute_nil] at hb hc
        exact ⟨m, by simpa using hb, by simpa using hc⟩
      | cons _ _ =>
        have hslash : isColonChar '/' = false := by decide
        refine ⟨m ++ '/' :: ms, ?_, ?_⟩
        · rw [join_cons_cons, List.append_assoc, List.singleton_append, hbraces,
            substitute_cons_of_none (bracedAt_of_ne '/' _ (by decide)), hms]
        · rw [hcolon _ (by simpa using hslash), substitute_cons_of_none (colonAt_of_ne '/' _ (by decide)), hnamed]
          simp
  obtain ⟨ms, hms, hnamed⟩ := key
  rw [hms, hnamed]

/-- The name of a request function is the same however the parameters of its path are written, one in braces and another
behind a colon. It begins with the method in lower case, and has only characters of identifiers. -/
theorem callName_of_writes {method : Text} {segments : List Segment} {ws us : List Text}
    (hm : ∀ c ∈ method, isLetter c = true) (hs : ∀ s ∈ segments, s.IsProper)
    (hw : List.Forall₂ Segment.Writes segments ws) (hu : List.Forall₂ Segment.Writes segments us) :
    callName method (join ['/'] ws) = callName method (join ['/'] us) ∧
      lower method <+: callName method (join ['/'] ws) ∧
      ∀ c ∈ callName method (join ['/'] ws), isIdentChar c = true := by
  refine ⟨?_, ?_, fun c hc => (List.mem_filter.1 hc).2⟩
  · rw [callName, callName, passes_over_path hs hw, passes_over_path hs hu]
  · have hlower : ∀ c ∈ lower method, isIdentChar c = true := fun c hc => by
      simp [isIdentChar, isIdentStart, isLetter_of_mem_lower hm c hc]
    rw [callName, List.filter_append, List.filter_eq_self.2 hlower]
    exact List.prefix_append _ _

/-- One parameter in braces and one behind a colon; the names of both lose their underscores. -/
theorem callName_of_writes_of_items :
    let segments : List Segment := [.fixed [], .fixed "line-items", .parameter "_id", .parameter "item_id"]
    (∀ c ∈ "GET".toList, isLetter c = true) ∧ (∀ s ∈ segments, s.IsProper) ∧
      callName "GET" "/line-items/\x7b_id\x7d/:item_id" = callName "GET" "/line-items/:_id/:item_id" ∧
      "get".toList <+: callName "GET" "/line-items/\x7b_id\x7d/:item_id" ∧
      callName "GET" "/line-items/:_id/:item_id" = "getLineItemsByIdByItemId".toList := by
  intro segments
  have hmethod : ∀ c ∈ "GET".toList, isLetter c = true := by decide
  have hfixed : ∀ c ∈ "line-items".toList, c ≠ '\x7b' ∧ c ≠ '\x7d' ∧ c ≠ ':' := by decide
  have hproper : ∀ s ∈ segments, s.IsProper := by
    simp only [segments, List.forall_mem_cons]
    exact ⟨nofun, hfixed, ⟨'_', _, rfl, rfl, by decide⟩, ⟨'i', _, rfl, rfl, by decide⟩, nofun⟩
  have hmixed : List.Forall₂ Segment.Writes segments ["", "line-items", "\x7b_id\x7d", ":item_id"] :=
    .cons (.fixed _) (.cons (.fixed _) (.cons (.braces _) (.cons (.colon _) .nil)))
  have hcolons : List.Forall₂ Segment.Writes segments ["", "line-items", ":_id", ":item_id"] :=
    .cons (.fixed _) (.cons (.fixed _) (.cons (.colon _) (.cons (.colon _) .nil)))
  obtain ⟨hsame, hbegins, -⟩ := callName_of_writes hmethod hproper hmixed hcolons
  exact ⟨hmethod, hproper, hsame, hbegins, by decide⟩

end ClientGen.Naming
