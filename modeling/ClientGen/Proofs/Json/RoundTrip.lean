import ClientGen.Proofs.Document.Fields
import ClientGen.Proofs.Json.Numbers
import ClientGen.Proofs.Json.Strings
import ClientGen.Proofs.Text.Pieces
/-!
# Reading what was written

What is read from a JSON text is read again from the text that is written of it.
-/

namespace ClientGen.Json

open Text

/-- The values that JSON texts denote. -/
inductive IsJson : Value → Prop
  | scalar {s : Scalar} (h : IsJsonScalar s) : IsJson (.scalar s)
  | list {vs : List Value} (h : ∀ v ∈ vs, IsJson v) : IsJson (.list vs)
  | object {fields : Fields} (hkeys : ∀ e ∈ fields, ∃ t, e.1 = .text t) (hdistinct : fields.Distinct)
    (h : ∀ e ∈ fields, IsJson e.2) : IsJson (.object fields)

/-! ## What is read -/

/-- A reader that gives what satisfies a condition. -/
private def Gives {α : Type} (p : α → Prop) (x : Except ReadError (α × Text)) : Prop :=
  ∀ a r, x = .ok (a, r) → p a

namespace Gives

variable {α β : Type} {p : α → Prop} {q : β → Prop}

private theorem error {e : ReadError} : Gives p (.error e) := fun _ _ h => nomatch h

private theorem ok {a : α} {r : Text} (h : p a) : Gives p (.ok (a, r)) := by
  intro b r' heq
  obtain ⟨rfl, -⟩ := Prod.mk.inj (Except.ok.inj heq)
  exact h

private theorem bind {x : Except ReadError (α × Text)} {f : α × Text → Except ReadError (β × Text)} (hx : Gives p x)
    (hf : ∀ a r, p a → Gives q (f (a, r))) : Gives q (x >>= f) := by
  cases x with
  | error e => exact error
  | ok found => exact hf found.1 found.2 (hx _ _ rfl)

end Gives

private def IsEntry (e : Scalar × Value) : Prop := (∃ t, e.1 = .text t) ∧ IsJson e.2

private theorem isEntry_put {key : Scalar} {v : Value} {fields : Fields} (hentry : IsEntry (key, v))
    (h : ∀ e ∈ fields, IsEntry e) : ∀ e ∈ fields.put key v, IsEntry e := by
  induction fields with
  | nil =>
    intro e he
    rw [List.mem_singleton.1 he]
    exact hentry
  | cons f fields ih =>
    obtain ⟨k, w⟩ := f
    have hf := h _ List.mem_cons_self
    have hrest := fun e he => h e (List.mem_cons_of_mem _ he)
    intro e he
    rw [Fields.put] at he
    split at he
    · rcases List.mem_cons.1 he with rfl | he
      · exact ⟨hf.1, hentry.2⟩
      · exact hrest e he
    · rcases List.mem_cons.1 he with rfl | he
      · exact hf
      · exact ih hrest e he

private theorem isEntry_ofEntries {entries : List (Scalar × Value)} (h : ∀ e ∈ entries, IsEntry e) :
    ∀ e ∈ Fields.ofEntries entries, IsEntry e := by
  have key : ∀ es : List (Scalar × Value), (∀ e ∈ es, IsEntry e) → ∀ fields : Fields, (∀ e ∈ fields, IsEntry e) →
      ∀ e ∈ es.foldl (fun fields e => Fields.put e.1 e.2 fields) fields, IsEntry e := by
    intro es
    induction es with
    | nil => exact fun _ _ hfields => hfields
    | cons e es ih =>
      intro hes fields hfields
      exact ih (fun e he => hes e (List.mem_cons_of_mem _ he)) _
        (isEntry_put (hes e List.mem_cons_self) hfields)
  exact key entries h [] fun e he => absurd he List.not_mem_nil

private theorem isJson_ofEntries {entries : List (Scalar × Value)} (h : ∀ e ∈ entries, IsEntry e) :
    IsJson (.object (Fields.ofEntries entries)) :=
  have hentries := isEntry_ofEntries h
  .object (fun e he => (hentries e he).1) (Fields.distinct_ofEntries entries) fun e he => (hentries e he).2

private theorem gives_value (fuel : Nat) :
    (∀ t, Gives IsJson (value fuel t)) ∧ (∀ t, Gives (fun vs => ∀ v ∈ vs, IsJson v) (elements fuel t)) ∧
      ∀ t, Gives (fun es => ∀ e ∈ es, IsEntry e) (members fuel t) := by
  -- the three readers call each other with less fuel, so that they go together
  induction fuel with
  | zero => exact ⟨fun _ => .error, fun _ => .error, fun _ => .error⟩
  | succ fuel ih =>
    obtain ⟨hvalue, helements, hmembers⟩ := ih
    refine ⟨fun t => ?_, fun t => ?_, fun t => ?_⟩
    · unfold value
      split
      · split
        · exact .ok (.scalar trivial)
        · exact .error
      · split
        · exact .ok (.list fun _ h => absurd h List.not_mem_nil)
        · exact .bind (helements _) fun vs r hvs => .ok (.list hvs)
      · split
        · exact .ok (.object (fun _ h => absurd h List.not_mem_nil) .nil fun _ h => absurd h List.not_mem_nil)
        · exact .bind (hmembers _) fun es r hes => .ok (isJson_ofEntries hes)
      · exact .bind (p := IsJsonScalar) (fun s r h => isJsonScalar_bare h) fun s r hs => .ok (.scalar hs)
    · unfold elements
      refine .bind (hvalue t) fun v r hv => ?_
      dsimp only
      split
      · exact .ok fun w hw => List.mem_singleton.1 hw ▸ hv
      · exact .bind (helements _) fun vs r hvs => .ok (List.forall_mem_cons.2 ⟨hv, hvs⟩)
      · exact .error
    · unfold members
      split
      · split
        · exact .error
        · split
          · refine .bind (hvalue _) fun v r hv => ?_
            have hentry (key : Text) : IsEntry (.text key, v) := ⟨⟨key, rfl⟩, hv⟩
            dsimp only
            split
            · exact .ok fun e he => List.mem_singleton.1 he ▸ hentry _
            · exact .bind (hmembers _) fun es r hes => .ok (List.forall_mem_cons.2 ⟨hentry _, hes⟩)
            · exact .error
          · exact .error
      · exact .error

theorem isJson_of_read {t : Text} {v : Value} (h : read t = .ok v) : IsJson v := by
  unfold read at h
  cases hvalue : value (t.length + 1) (skipSpace t) with
  | error e =>
    rw [hvalue] at h
    cases h
  | ok found =>
    obtain ⟨w, r⟩ := found
    have hw := (gives_value (t.length + 1)).1 _ _ _ hvalue
    rw [hvalue] at h
    simp only [bind, Except.bind] at h
    split at h
    · cases h
      exact hw
    · cases h

/-! ## Spaces -/

private theorem skipSpace_cons {c : Char} (hc : isSpace c = false) (t : Text) : skipSpace (c :: t) = c :: t := by
  simp [skipSpace, hc]

/-- A text on which a value begins. -/
private def Begins (t : Text) : Prop := ∃ c t', t = c :: t' ∧ isSpace c = false ∧ c ≠ ']'

private theorem Begins.skipSpace {t : Text} (h : Begins t) : skipSpace t = t := by
  obtain ⟨c, t, rfl, hc, -⟩ := h
  exact skipSpace_cons hc t

private theorem skipSpace_newLine_append (level : Nat) (t : Text) : skipSpace (newLine level ++ t) = skipSpace t := by
  refine List.dropWhile_append_of_pos fun c hc => ?_
  rcases List.mem_cons.1 hc with rfl | hc
  · decide
  · rw [List.eq_of_mem_replicate hc]
    decide

private theorem begins_of_value {fuel : Nat} {t r : Text} {v : Value} (h : value fuel t = .ok (v, r)) : Begins t := by
  cases fuel with
  | zero => cases h
  | succ fuel =>
    cases t with
    | nil => cases h
    | cons c t =>
      refine ⟨c, t, rfl, ?_, ?_⟩
      · by_contra hspace
        simp only [isSpace, Bool.not_eq_false, Bool.or_eq_true, beq_iff_eq] at hspace
        rcases hspace with ((rfl | rfl) | rfl) | rfl <;> cases h
      · rintro rfl
        cases h

private theorem begins_of_elements {fuel : Nat} {t r : Text} {vs : List Value} (h : elements fuel t = .ok (vs, r)) :
    Begins t := by
  cases fuel with
  | zero => cases h
  | succ fuel =>
    rw [elements] at h
    cases hvalue : value fuel t with
    | error e =>
      rw [hvalue] at h
      cases h
    | ok found => exact begins_of_value hvalue

private theorem begins_of_members {fuel : Nat} {t r : Text} {es : List (Scalar × Value)}
    (h : members fuel t = .ok (es, r)) : Begins t := by
  cases fuel with
  | zero => cases h
  | succ fuel =>
    unfold members at h
    split at h
    · exact ⟨_, _, rfl, by decide, by decide⟩
    · cases h

/-! ## What is written -/

/-- The value is read from the front of every text that goes on behind it as an object or a list does. -/
private def IsReadAt (level : Nat) (v : Value) : Prop :=
  ∀ fuel r, (writeAt level v).length < fuel → IsEnd r → value fuel (writeAt level v ++ r) = .ok (v, r)

private theorem isReadAt_scalar {s : Scalar} (hs : IsJsonScalar s) (level : Nat) : IsReadAt level (.scalar s) := by
  intro fuel r hfuel hr
  obtain ⟨fuel, rfl⟩ := Nat.exists_eq_succ_of_ne_zero (Nat.ne_zero_of_lt hfuel)
  change value (fuel + 1) (writeScalar s ++ r) = _
  by_cases htext : ∃ t, s = .text t
  · obtain ⟨t, rfl⟩ := htext
    exact value_writeString t r fuel
  · have hbare := bare_writeScalar hs hr (not_exists.1 htext)
    unfold value
    -- A text, a list and an object begin with characters that begin no other value.
    split
    · next heq =>
      rw [heq] at hbare
      cases hbare
    · next heq =>
      rw [heq] at hbare
      cases hbare
    · next heq =>
      rw [heq] at hbare
      cases hbare
    · rw [hbare]
      rfl

private theorem isEnd_newLine (level : Nat) (t : Text) : IsEnd (newLine level ++ t) := ⟨_, _, rfl, .inr rfl⟩

private theorem isEnd_comma (t : Text) : IsEnd (',' :: t) := ⟨_, _, rfl, .inl rfl⟩

variable {level inner : Nat}

private theorem skipSpace_closing (level : Nat) {c : Char} (hc : isSpace c = false) (r : Text) :
    skipSpace (newLine level ++ c :: r) = c :: r :=
  (skipSpace_newLine_append level _).trans (skipSpace_cons hc r)

private theorem elements_writeAllAt (level : Nat) {vs : List Value} (hne : vs ≠ []) (h : ∀ v ∈ vs, IsReadAt inner v)
    (r : Text) (fuel : Nat) (hfuel : (join (',' :: newLine inner) (writeAllAt inner vs)).length + 1 < fuel) :
    elements fuel (join (',' :: newLine inner) (writeAllAt inner vs) ++ (newLine level ++ ']' :: r)) =
      .ok (vs, r) := by
  induction vs generalizing fuel with
  | nil => exact absurd rfl hne
  | cons v vs ih =>
    obtain ⟨fuel, rfl⟩ := Nat.exists_eq_succ_of_ne_zero (Nat.ne_zero_of_lt hfuel)
    have hv := h v List.mem_cons_self
    by_cases hvs : vs = []
    · subst hvs
      rw [writeAllAt, writeAllAt, join_singleton] at hfuel ⊢
      rw [elements, hv fuel _ (by omega) (isEnd_newLine level _)]
      simp only [bind, Except.bind, skipSpace_closing level (c := ']') (by decide)]
      rfl
    · have hparts : writeAllAt inner vs ≠ [] := by
        obtain ⟨w, ws, rfl⟩ := List.exists_cons_of_ne_nil hvs
        exact List.cons_ne_nil _ _
      have hjoin : join (',' :: newLine inner) (writeAllAt inner (v :: vs)) =
          writeAt inner v ++ ',' :: (newLine inner ++ join (',' :: newLine inner) (writeAllAt inner vs)) := by
        rw [writeAllAt, join_cons hparts]
        simp
      rw [hjoin] at hfuel ⊢
      simp only [List.length_append, List.length_cons] at hfuel
      have ih := ih hvs (fun w hw => h w (List.mem_cons_of_mem _ hw)) fuel (by omega)
      rw [List.append_assoc, List.cons_append, List.append_assoc, elements, hv fuel _ (by omega) (isEnd_comma _)]
      simp only [bind, Except.bind, skipSpace_cons (c := ',') (by decide), skipSpace_newLine_append,
        (begins_of_elements ih).skipSpace, ih]
      rfl

private theorem members_writeFieldsAt (level : Nat) {fields : Fields} (hne : fields ≠ [])
    (hkeys : ∀ e ∈ fields, ∃ t, e.1 = .text t) (h : ∀ e ∈ fields, IsReadAt inner e.2) (r : Text) (fuel : Nat)
    (hfuel : (join (',' :: newLine inner) (writeFieldsAt inner fields)).length + 1 < fuel) :
    members fuel (join (',' :: newLine inner) (writeFieldsAt inner fields) ++ (newLine level ++ '\x7d' :: r)) =
      .ok (fields, r) := by
  induction fields generalizing fuel with
  | nil => exact absurd rfl hne
  | cons e fields ih =>
    obtain ⟨fuel, rfl⟩ := Nat.exists_eq_succ_of_ne_zero (Nat.ne_zero_of_lt hfuel)
    obtain ⟨k, v⟩ := e
    obtain ⟨key, rfl⟩ : ∃ t, k = .text t := hkeys _ List.mem_cons_self
    have hv : IsReadAt inner v := h _ List.mem_cons_self
    have hentry (t : Text) : writeString (keyText (.text key)) ++ ": " ++ writeAt inner v ++ t =
        '"' :: (key.flatMap writeChar ++ '"' :: ':' :: ' ' :: (writeAt inner v ++ t)) := by
      simp [writeString, keyText]
    have hcolon (t : Text) : skipSpace (' ' :: t) = skipSpace t := List.dropWhile_cons_of_pos (by decide)
    by_cases hfields : fields = []
    · subst hfields
      rw [writeFieldsAt, writeFieldsAt, join_singleton] at hfuel ⊢
      simp only [List.length_append] at hfuel
      have hvalue := hv fuel _ (by omega) (isEnd_newLine level ('\x7d' :: r))
      rw [hentry, members]
      simp only [string?_behind, skipSpace_cons (c := ':') (by decide), hcolon, (begins_of_value hvalue).skipSpace,
        hvalue, bind, Except.bind, skipSpace_closing level (c := '\x7d') (by decide)]
      rfl
    · have hparts : writeFieldsAt inner fields ≠ [] := by
        obtain ⟨f, fs, rfl⟩ := List.exists_cons_of_ne_nil hfields
        exact List.cons_ne_nil _ _
      have hjoin : join (',' :: newLine inner) (writeFieldsAt inner ((.text key, v) :: fields)) =
          writeString (keyText (.text key)) ++ ": " ++ writeAt inner v ++
            ',' :: (newLine inner ++ join (',' :: newLine inner) (writeFieldsAt inner fields)) := by
        rw [writeFieldsAt, join_cons hparts]
        simp
      rw [hjoin] at hfuel ⊢
      simp only [List.length_append, List.length_cons] at hfuel
      have ih := ih hfields (fun e he => hkeys e (List.mem_cons_of_mem _ he))
        (fun e he => h e (List.mem_cons_of_mem _ he)) fuel (by omega)
      have hvalue := hv fuel _ (by omega) (isEnd_comma (newLine inner ++
        (join (',' :: newLine inner) (writeFieldsAt inner fields) ++ (newLine level ++ '\x7d' :: r))))
      rw [List.append_assoc, List.cons_append, List.append_assoc (newLine inner), hentry, members]
      simp only [string?_behind, skipSpace_cons (c := ':') (by decide), hcolon, (begins_of_value hvalue).skipSpace,
        hvalue, bind, Except.bind, skipSpace_cons (c := ',') (by decide), skipSpace_newLine_append,
        (begins_of_members ih).skipSpace, ih]
      rfl

private theorem block_of_ne_nil {parts : List Text} (h : parts ≠ []) (opening closing : Char) (r : Text) :
    block level opening closing parts ++ r =
      opening :: (newLine (level + 1) ++
        (join (',' :: newLine (level + 1)) parts ++ (newLine level ++ closing :: r))) := by
  rw [block, if_neg (by simpa using h)]
  simp

private theorem length_lt_of_block {parts : List Text} (h : parts ≠ []) {opening closing : Char} {fuel : Nat}
    (hfuel : (block level opening closing parts).length < fuel + 1) :
    (join (',' :: newLine (level + 1)) parts).length + 1 < fuel := by
  rw [← List.append_nil (block _ _ _ _), block_of_ne_nil h] at hfuel
  simp only [List.length_cons, List.length_append] at hfuel
  omega

private theorem isReadAt_list {vs : List Value} (h : ∀ v ∈ vs, ∀ level, IsReadAt level v) (level : Nat) :
    IsReadAt level (.list vs) := by
  intro fuel r hfuel hr
  obtain ⟨fuel, rfl⟩ := Nat.exists_eq_succ_of_ne_zero (Nat.ne_zero_of_lt hfuel)
  cases vs with
  | nil => rfl
  | cons v vs =>
    have hparts : writeAllAt (level + 1) (v :: vs) ≠ [] := List.cons_ne_nil _ _
    rw [writeAt] at hfuel ⊢
    have helements := elements_writeAllAt level (List.cons_ne_nil v vs) (fun v hv => h v hv (level + 1)) r _
      (length_lt_of_block hparts hfuel)
    have hbegins := begins_of_elements helements
    rw [block_of_ne_nil hparts, value]
    simp only [skipSpace_newLine_append, hbegins.skipSpace]
    split
    · next heq =>
      obtain ⟨c, t, hcons, -, hc⟩ := hbegins
      rw [heq] at hcons
      exact absurd (List.cons_eq_cons.1 hcons).1.symm hc
    · rw [helements]
      rfl

private theorem isReadAt_object {fields : Fields} (hkeys : ∀ e ∈ fields, ∃ t, e.1 = .text t)
    (hdistinct : fields.Distinct) (h : ∀ e ∈ fields, ∀ level, IsReadAt level e.2) (level : Nat) :
    IsReadAt level (.object fields) := by
  intro fuel r hfuel hr
  obtain ⟨fuel, rfl⟩ := Nat.exists_eq_succ_of_ne_zero (Nat.ne_zero_of_lt hfuel)
  cases fields with
  | nil => rfl
  | cons e fields =>
    have hparts : writeFieldsAt (level + 1) (e :: fields) ≠ [] := List.cons_ne_nil _ _
    rw [writeAt] at hfuel ⊢
    have hmembers := members_writeFieldsAt level (List.cons_ne_nil e fields) hkeys
      (fun e he => h e he (level + 1)) r _ (length_lt_of_block hparts hfuel)
    rw [block_of_ne_nil hparts, value]
    simp only [skipSpace_newLine_append, (begins_of_members hmembers).skipSpace]
    split
    · next heq =>
      rw [heq] at hmembers
      cases fuel <;> cases hmembers
    · rw [hmembers]
      simp only [bind, Except.bind, Fields.ofEntries_of_distinct hdistinct]
      rfl

private theorem isReadAt {v : Value} (h : IsJson v) (level : Nat) : IsReadAt level v := by
  induction h generalizing level with
  | scalar hs => exact isReadAt_scalar hs level
  | list _ ih => exact isReadAt_list ih level
  | object hkeys hdistinct _ ih => exact isReadAt_object hkeys hdistinct ih level

theorem read_write {v : Value} (h : IsJson v) : read (write v ++ "\n") = .ok v := by
  have hlength : (writeAt 0 v).length < (write v ++ "\n").length + 1 := by
    rw [write, List.length_append]
    exact Nat.lt_succ_of_le (Nat.le_add_right _ _)
  have hvalue := isReadAt h 0 _ "\n" hlength ⟨'\n', [], rfl, .inr rfl⟩
  have hbegins : skipSpace (writeAt 0 v ++ "\n") = writeAt 0 v ++ "\n" := (begins_of_value hvalue).skipSpace
  rw [read, write, hbegins]
  rw [write] at hvalue
  rw [hvalue]
  rfl

/-! ## Line ends -/

private theorem notMem_newLine (level : Nat) : '\r' ∉ newLine level := by
  simp [newLine]

private theorem notMem_block {parts : List Text} (h : ∀ p ∈ parts, '\r' ∉ p) {opening closing : Char}
    (ho : '\r' ≠ opening) (hc : '\r' ≠ closing) (level : Nat) : '\r' ∉ block level opening closing parts := by
  by_cases hparts : parts = []
  · subst hparts
    simpa [block] using ⟨ho, hc⟩
  · have hjoin : '\r' ∉ join (',' :: newLine (level + 1)) parts :=
      notMem_join (List.not_mem_cons_of_ne_of_not_mem (by decide) (notMem_newLine _)) h
    rw [← List.append_nil (block _ _ _ _), block_of_ne_nil hparts]
    simp [ho, hc, hjoin, notMem_newLine]

private theorem mem_writeAllAt {vs : List Value} {p : Text} (hp : p ∈ writeAllAt level vs) :
    ∃ v ∈ vs, p = writeAt level v := by
  induction vs with
  | nil => cases hp
  | cons v vs ih =>
    rcases List.mem_cons.1 hp with rfl | hp
    · exact ⟨v, List.mem_cons_self, rfl⟩
    · obtain ⟨w, hw, rfl⟩ := ih hp
      exact ⟨w, List.mem_cons_of_mem _ hw, rfl⟩

private theorem mem_writeFieldsAt {fields : Fields} {p : Text} (hp : p ∈ writeFieldsAt level fields) :
    ∃ e ∈ fields, p = writeString (keyText e.1) ++ ": " ++ writeAt level e.2 := by
  induction fields with
  | nil => cases hp
  | cons e fields ih =>
    rcases List.mem_cons.1 hp with rfl | hp
    · exact ⟨e, List.mem_cons_self, rfl⟩
    · obtain ⟨f, hf, rfl⟩ := ih hp
      exact ⟨f, List.mem_cons_of_mem _ hf, rfl⟩

private theorem notMem_writeAt {v : Value} (h : IsJson v) (level : Nat) : '\r' ∉ writeAt level v := by
  induction h generalizing level with
  | @scalar s hs =>
    by_cases htext : ∃ t, s = .text t
    · obtain ⟨t, rfl⟩ := htext
      exact notMem_writeString t
    · exact notMem_writeScalar hs (not_exists.1 htext)
  | list _ ih =>
    refine notMem_block (fun p hp => ?_) (by decide) (by decide) level
    obtain ⟨v, hv, rfl⟩ := mem_writeAllAt hp
    exact ih v hv _
  | object _ _ _ ih =>
    refine notMem_block (fun p hp => ?_) (by decide) (by decide) level
    obtain ⟨e, he, rfl⟩ := mem_writeFieldsAt hp
    exact List.not_mem_append (List.not_mem_append (notMem_writeString _) (by decide)) (ih e he _)

theorem notMem_write {v : Value} (h : IsJson v) : '\r' ∉ write v := notMem_writeAt h 0

/-! ## Objects of texts -/

def textFields (entries : List (Text × Text)) : Fields :=
  entries.map fun e => (.text e.1, .text e.2)

theorem isJson_textFields {entries : List (Text × Text)} (h : (entries.map Prod.fst).Nodup) :
    IsJson (.object (textFields entries)) := by
  refine .object ?_ ?_ ?_
  · intro e he
    obtain ⟨f, -, rfl⟩ := List.mem_map.1 he
    exact ⟨f.1, rfl⟩
  · rw [Fields.distinct_iff, textFields, List.map_map]
    rw [List.Nodup, List.pairwise_map] at h
    refine List.pairwise_map.2 (h.imp fun {a b} hne => ?_)
    exact eq_false_of_ne_true fun hsame => hne (Scalar.text.inj (Scalar.sameKey_text_iff.1 hsame))
  · intro e he
    obtain ⟨f, -, rfl⟩ := List.mem_map.1 he
    exact .scalar trivial

end ClientGen.Json
