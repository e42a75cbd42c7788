import ClientGen.Proofs.Schema.Outline
/-!
# Excluded properties

A schema is written without the properties that the settings exclude just as if the document did not have them, as long
as no object loses all of its properties.
-/

namespace ClientGen

open Text

/-- The settings with no property excluded. -/
def Settings.excludingNothing (settings : Settings) : Settings := { settings with excludedFields := [] }

namespace Table

variable {α β : Type} {gone : Text → Bool} {f : α → β}

/-- The entries whose keys stay, with changed values. -/
def sift (gone : Text → Bool) (f : α → β) (t : Table α) : Table β :=
  (t.filter fun e => !gone e.1).map fun e => (e.1, f e.2)

theorem sift_cons (e : Text × α) (t : Table α) :
    sift gone f (e :: t) = if gone e.1 then sift gone f t else (e.1, f e.2) :: sift gone f t := by
  unfold sift
  cases h : gone e.1 <;> simp [h]

theorem keys_sift (t : Table α) : (sift gone f t).keys = t.keys.filter fun k => !gone k := by
  unfold sift keys
  rw [List.map_map, List.filter_map]
  rfl

theorem sift_put (key : Text) (value : α) (t : Table α) :
    sift gone f (put key value t) = if gone key then sift gone f t else put key (f value) (sift gone f t) := by
  induction t with
  | nil =>
    rw [put, sift_cons]
    rfl
  | cons e t ih =>
    obtain ⟨k, v⟩ := e
    rw [put]
    by_cases hk : k = key
    · subst hk
      rw [if_pos rfl, sift_cons, sift_cons]
      split
      · rfl
      · rw [put, if_pos rfl]
    · rw [if_neg hk, sift_cons, sift_cons, ih]
      by_cases hgone : gone k = true
      · rw [if_pos hgone, if_pos hgone]
      · rw [if_neg hgone, if_neg hgone, put, if_neg hk]
        split <;> rfl

theorem sift_putAll (entries t : Table α) :
    sift gone f (putAll entries t) = putAll (sift gone f entries) (sift gone f t) := by
  induction entries generalizing t with
  | nil => rfl
  | cons e entries ih =>
    obtain ⟨k, v⟩ := e
    have hstep : putAll ((k, v) :: entries) t = putAll entries (put k v t) := rfl
    rw [hstep, ih, sift_put, sift_cons]
    split <;> rfl

end Table

namespace Schema

variable {settings : Settings} {gone : Text → Bool} {s : Schema}

/-! ## Documents without properties -/

mutual

/-- The entries of a schema without the properties of some names, here and in all of its parts. -/
def prune (gone : Text → Bool) : List (Scalar × Value) → List (Scalar × Value)
  | [] => []
  | (k, v) :: rest =>
    let v' :=
      if k = .text "properties" then pruneProperties gone v
      else if k = .text "items" ∨ k = .text "additionalProperties" then pruneObject gone v
      else if k = .text "allOf" then pruneMembers gone v
      else v
    (k, v') :: prune gone rest
termination_by structural fs => fs

def pruneObject (gone : Text → Bool) : Value → Value
  | .object fs => .object (prune gone fs)
  | v => v
termination_by structural v => v

def pruneMembers (gone : Text → Bool) : Value → Value
  | .list vs => .list (pruneAll gone vs)
  | v => v
termination_by structural v => v

def pruneAll (gone : Text → Bool) : List Value → List Value
  | [] => []
  | v :: vs => pruneObject gone v :: pruneAll gone vs
termination_by structural vs => vs

/-- The properties of an object, without those of the names. -/
def pruneProperties (gone : Text → Bool) : Value → Value
  | .object fs => .object (pruneNamed gone fs)
  | v => v
termination_by structural v => v

def pruneNamed (gone : Text → Bool) : List (Scalar × Value) → List (Scalar × Value)
  | [] => []
  | (k, v) :: rest =>
    if (Value.scalar k).text?.any gone then pruneNamed gone rest
    else (k, pruneObject gone v) :: pruneNamed gone rest
termination_by structural fs => fs

end

mutual

/-- The schema without the properties of some names, here and in all of its parts. -/
def without (gone : Text → Bool) : Schema → Schema
  | ⟨ref, allOf, enum, tag, items, hasProperties, properties, required, additional, isOpen, description⟩ =>
    ⟨ref, withoutAll gone allOf, enum, tag, withoutOption gone items, hasProperties, withoutNamed gone properties,
      required, withoutOption gone additional, isOpen, description⟩
termination_by structural s => s

def withoutOption (gone : Text → Bool) : Option Schema → Option Schema
  | none => none
  | some s => some (without gone s)
termination_by structural s => s

def withoutAll (gone : Text → Bool) : List Schema → List Schema
  | [] => []
  | s :: ss => without gone s :: withoutAll gone ss
termination_by structural ss => ss

def withoutNamed (gone : Text → Bool) : List (Text × Schema) → List (Text × Schema)
  | [] => []
  | (name, s) :: rest =>
    if gone name then withoutNamed gone rest else (name, without gone s) :: withoutNamed gone rest
termination_by structural ps => ps

end

private theorem withoutOption_eq_map (s : Option Schema) : withoutOption gone s = s.map (without gone) := by
  cases s <;> rfl

private theorem withoutAll_eq_map (ss : List Schema) : withoutAll gone ss = ss.map (without gone) := by
  induction ss with
  | nil => rfl
  | cons s ss ih => rw [withoutAll, ih, List.map_cons]

private theorem withoutNamed_eq_sift (ps : List (Text × Schema)) :
    withoutNamed gone ps = Table.sift gone (without gone) ps := by
  induction ps with
  | nil => rfl
  | cons p ps ih =>
    obtain ⟨name, s⟩ := p
    rw [withoutNamed, ih, Table.sift_cons]

theorem without_eq (gone : Text → Bool) (s : Schema) :
    s.without gone =
      { s with
        allOf := s.allOf.map (without gone)
        items := s.items.map (without gone)
        properties := Table.sift gone (without gone) s.properties
        additional := s.additional.map (without gone) } := by
  obtain ⟨ref, allOf, enum, tag, items, hasProperties, properties, required, additional, isOpen, description⟩ := s
  rw [without, withoutAll_eq_map, withoutOption_eq_map, withoutOption_eq_map, withoutNamed_eq_sift]

/-- A schema with what one more entry says. -/
private def withEntry (k : Scalar) (v : Value) (s : Schema) : Schema :=
  if k = .text "$ref" then { s with ref := v.nonemptyText? }
  else if k = .text "allOf" then { s with allOf := ofMembers v }
  else if k = .text "enum" then { s with enum := v.items?.getD [] }
  else if k = .text "type" then { s with tag := v.text? }
  else if k = .text "items" then { s with items := ofObject? v }
  else if k = .text "properties" then { s with hasProperties := true, properties := ofEntries v }
  else if k = .text "required" then { s with required := textsOf v }
  else if k = .text "additionalProperties" then
    { s with additional := ofObject? v, isOpen := v matches .scalar (.bool true) }
  else if k = .text "description" then { s with description := v.text? }
  else s

section Entries

variable (v : Value) (s : Schema)

private theorem withEntry_properties :
    withEntry (.text "properties") v s = { s with hasProperties := true, properties := ofEntries v } := rfl

private theorem withEntry_items : withEntry (.text "items") v s = { s with items := ofObject? v } := rfl

private theorem withEntry_additional :
    withEntry (.text "additionalProperties") v s =
      { s with additional := ofObject? v, isOpen := v matches .scalar (.bool true) } := rfl

private theorem withEntry_allOf : withEntry (.text "allOf") v s = { s with allOf := ofMembers v } := rfl

end Entries

private theorem ofNamed_cons (k : Scalar) (v : Value) (rest : List (Scalar × Value)) :
    ofNamed ((k, v) :: rest) =
      match k, ofObject? v with
      | .text name, some s => (name, s) :: ofNamed rest
      | _, _ => ofNamed rest := rfl

private theorem ofFields_cons (k : Scalar) (v : Value) (rest : List (Scalar × Value)) :
    ofFields ((k, v) :: rest) = withEntry k v (ofFields rest) := rfl

private theorem isTrue_pruneObject (gone : Text → Bool) (v : Value) :
    ((pruneObject gone v) matches .scalar (.bool true)) = (v matches .scalar (.bool true)) := by
  cases v <;> rfl

mutual

theorem ofFields_prune (gone : Text → Bool) :
    (fs : List (Scalar × Value)) → ofFields (prune gone fs) = (ofFields fs).without gone
  | [] => rfl
  | (k, v) :: rest => by
    have hrest := ofFields_prune gone rest
    have hobject := ofObject?_pruneObject gone v
    have hmembers := ofMembers_pruneMembers gone v
    have hproperties := ofEntries_pruneProperties gone v
    rw [prune, ofFields_cons, ofFields_cons, hrest, without_eq, without_eq]
    by_cases hp : k = .text "properties"
    · subst hp
      rw [if_pos rfl]
      simp only [withEntry_properties, hproperties, withoutNamed_eq_sift]
    by_cases hi : k = .text "items"
    · subst hi
      rw [if_neg (by decide), if_pos (.inl rfl)]
      simp only [withEntry_items, hobject]
    by_cases ha : k = .text "additionalProperties"
    · subst ha
      rw [if_neg (by decide), if_pos (.inr rfl)]
      simp only [withEntry_additional, hobject, isTrue_pruneObject]
    by_cases hm : k = .text "allOf"
    · subst hm
      rw [if_neg (by decide), if_neg (by decide), if_pos rfl]
      simp only [withEntry_allOf, hmembers, withoutAll_eq_map]
    simp only [withEntry, hp, hi, ha, hm, if_false, or_self]
    split_ifs <;> rfl
termination_by structural fs => fs

theorem ofObject?_pruneObject (gone : Text → Bool) :
    (v : Value) → ofObject? (pruneObject gone v) = (ofObject? v).map (without gone)
  | .object fs => congrArg some (ofFields_prune gone fs)
  | .scalar _ | .list _ | .pair .. | .set _ => rfl
termination_by structural v => v

theorem ofMembers_pruneMembers (gone : Text → Bool) :
    (v : Value) → ofMembers (pruneMembers gone v) = withoutAll gone (ofMembers v)
  | .list vs => ofAll_pruneAll gone vs
  | .scalar _ | .object _ | .pair .. | .set _ => rfl
termination_by structural v => v

theorem ofAll_pruneAll (gone : Text → Bool) :
    (vs : List Value) → ofAll (pruneAll gone vs) = withoutAll gone (ofAll vs)
  | [] => rfl
  | v :: vs => by
    rw [pruneAll, ofAll, ofAll, ofObject?_pruneObject gone v, ofAll_pruneAll gone vs]
    cases ofObject? v <;> rfl
termination_by structural vs => vs

theorem ofEntries_pruneProperties (gone : Text → Bool) :
    (v : Value) → ofEntries (pruneProperties gone v) = withoutNamed gone (ofEntries v)
  | .object fs => ofNamed_pruneNamed gone fs
  | .scalar _ | .list _ | .pair .. | .set _ => rfl
termination_by structural v => v

theorem ofNamed_pruneNamed (gone : Text → Bool) :
    (fs : List (Scalar × Value)) → ofNamed (pruneNamed gone fs) = withoutNamed gone (ofNamed fs)
  | [] => rfl
  | (k, v) :: rest => by
    have hvalue := ofObject?_pruneObject gone v
    have hrest := ofNamed_pruneNamed gone rest
    rw [pruneNamed, ofNamed_cons, withoutNamed_eq_sift]
    rw [withoutNamed_eq_sift] at hrest
    cases k with
    | text name =>
      rw [Value.text?, Option.any_some]
      cases hv : ofObject? v with
      | none =>
        split
        · exact hrest
        · rw [ofNamed_cons, hvalue, hv]
          exact hrest
      | some s =>
        dsimp only
        rw [Table.sift_cons]
        split
        · exact hrest
        · rw [ofNamed_cons, hvalue, hv, ← hrest]
          rfl
    | _ => exact hrest
termination_by structural fs => fs

end

/-! ## Types -/

/-- A schema in which every object keeps some of its properties when the excluded ones go, here and in all parts. -/
inductive KeepsSome (settings : Settings) : Schema → Prop
  | mk {s : Schema} (own : s.properties ≠ [] → s.keptNames settings ≠ [])
    (parts : ∀ c ∈ s.parts, KeepsSome settings c) : KeepsSome settings s

namespace KeepsSome

theorem keptNames_ne_nil (h : s.KeepsSome settings) (hs : s.properties ≠ []) : s.keptNames settings ≠ [] := by
  cases h with
  | mk own _ => exact own hs

theorem of_part (h : s.KeepsSome settings) {c : Schema} (hc : c ∈ s.parts) : c.KeepsSome settings := by
  cases h with
  | mk _ parts => exact parts c hc

theorem of_property (h : s.KeepsSome settings) {p : Text × Schema} (hp : p ∈ s.properties) :
    p.2.KeepsSome settings :=
  h.of_part (mem_parts.2 (.inl ⟨p, hp, rfl⟩))

theorem of_member (h : s.KeepsSome settings) {m : Schema} (hm : m ∈ s.allOf) : m.KeepsSome settings :=
  h.of_part (mem_parts.2 (.inr (.inr (.inl hm))))

end KeepsSome

private theorem excludes_excludingNothing (name : Text) : settings.excludingNothing.excludes name = false := rfl

private theorem kept_excludingNothing (properties : List (Text × Schema)) :
    kept settings.excludingNothing properties = properties :=
  List.filter_eq_self.2 fun p _ => by rw [excludes_excludingNothing]; rfl

private theorem kept_sift (properties : List (Text × Schema)) :
    kept settings.excludingNothing (Table.sift settings.excludes (without settings.excludes) properties) =
      (kept settings properties).map fun p => (p.1, p.2.without settings.excludes) := by
  rw [kept_excludingNothing]
  rfl

private theorem keptNames_without (s : Schema) :
    (s.without settings.excludes).keptNames settings.excludingNothing = s.keptNames settings := by
  rw [without_eq, keptNames, kept_sift, List.map_map]
  rfl

private theorem sift_eq_nil_iff (h : s.KeepsSome settings) :
    Table.sift settings.excludes (without settings.excludes) s.properties = [] ↔ s.properties = [] := by
  constructor
  · intro hnil
    by_contra hne
    apply h.keptNames_ne_nil hne
    rw [← keptNames_without, keptNames, without_eq, hnil]
    rfl
  · intro hnil
    rw [hnil]
    rfl

theorem type_without (h : s.KeepsSome settings) :
    (s.without settings.excludes).type settings.excludingNothing = s.type settings := by
  induction h with
  | @mk s own parts ih =>
    have hself : s.KeepsSome settings := .mk own parts
    have hmembers : (s.allOf.map (without settings.excludes)).map (type settings.excludingNothing) =
        s.allOf.map (type settings) := by
      rw [List.map_map]
      exact List.map_congr_left fun m hm => ih m (mem_parts.2 (.inr (.inr (.inl hm))))
    have hoption {c : Option Schema} (hc : ∀ s' ∈ c, s' ∈ s.parts) :
        (c.map (without settings.excludes)).map (type settings.excludingNothing) = c.map (type settings) := by
      rw [Option.map_map]
      exact Option.map_congr fun s' hs' => ih s' (hc s' hs')
    have hproperties : ((kept settings s.properties).map fun p => (p.1, p.2.without settings.excludes)).map
          (fun p => (⟨p.1, p.1 ∉ s.required, p.2.type settings.excludingNothing⟩ : Member TypeExpr)) =
        (kept settings s.properties).map fun p => ⟨p.1, p.1 ∉ s.required, p.2.type settings⟩ := by
      rw [List.map_map]
      refine List.map_congr_left fun p hp => ?_
      simp only [Function.comp_apply, ih p.2 (mem_parts.2 (.inl ⟨p, (mem_kept.1 hp).1, rfl⟩))]
    cases hr : s.ref with
    | some ref =>
      have hr' : (s.without settings.excludes).ref = some ref := by rw [without_eq, hr]
      rw [type_of_ref hr, type_of_ref hr']
      rfl
    | none =>
      have hrecord : (s.without settings.excludes).recordType settings.excludingNothing = s.recordType settings := by
        rw [without_eq, recordType, recordType, hoption fun a ha => mem_parts.2 (.inr (.inr (.inr ha)))]
        simp only [sift_eq_nil_iff hself]
      rw [type_of_no_ref hr, type_of_no_ref (by rw [without_eq, hr]), keptNames_without, hrecord, without_eq]
      dsimp only
      rw [hmembers, hoption fun i hi => mem_parts.2 (.inr (.inl hi)), kept_sift, hproperties]
      simp only [ne_eq, List.map_eq_nil_iff]
      rfl

/-! ## Declarations -/

/-- A merged composition without the properties of some names. -/
def Merged.without (gone : Text → Bool) (m : Merged) : Merged :=
  { m with properties := Table.sift gone (Schema.without gone) m.properties }

private theorem addProperties_without (m : Merged) (s : Schema) :
    (m.without gone).addProperties (s.without gone) = (m.addProperties s).without gone := by
  have hput : Table.sift gone (Schema.without gone) (Table.putAll s.properties m.properties) =
      Table.putAll (Table.sift gone (Schema.without gone) s.properties)
        (Table.sift gone (Schema.without gone) m.properties) := Table.sift_putAll s.properties m.properties
  rw [without_eq, Merged.without, Merged.without, Merged.addProperties, Merged.addProperties]
  exact congrArg (Merged.mk m.parents · (m.required ++ s.required)) hput.symm

private theorem addMember_without (displayName : Text → Text) (m : Merged) (s : Schema) :
    (m.without gone).addMember displayName (s.without gone) = (m.addMember displayName s).without gone := by
  have href : (s.without gone).ref = s.ref := by rw [without_eq]
  rw [Merged.addMember, Merged.addMember, href]
  cases s.ref with
  | some ref => rfl
  | none => exact addProperties_without m s

theorem merged_without (displayName : Text → Text) (s : Schema) :
    (s.without gone).merged displayName = (s.merged displayName).without gone := by
  have hfold (members : List Schema) (m : Merged) :
      (members.map (without gone)).foldl (Merged.addMember displayName) (m.without gone) =
        (members.foldl (Merged.addMember displayName) m).without gone := by
    induction members generalizing m with
    | nil => rfl
    | cons member members ih => rw [List.map_cons, List.foldl_cons, List.foldl_cons, addMember_without, ih]
  have hmembers : (s.without gone).allOf = s.allOf.map (without gone) := by rw [without_eq]
  rw [merged_eq, merged_eq, ← addProperties_without, ← hfold, hmembers]
  rfl

private theorem sift_merged_eq_nil_iff (h : s.KeepsSome settings) (displayName : Text → Text) :
    Table.sift settings.excludes (without settings.excludes) (s.merged displayName).properties = [] ↔
      (s.merged displayName).properties = [] := by
  constructor
  · intro hnil
    by_contra hne
    obtain ⟨p, hp⟩ := List.exists_mem_of_ne_nil _ hne
    -- a property of the member or the schema that has this one is kept, and it is listed, too
    obtain ⟨c, hc, hcp, hkeys⟩ : ∃ c : Schema, c.KeepsSome settings ∧ p ∈ c.properties ∧
        ∀ name ∈ c.properties.map Prod.fst, name ∈ (s.merged displayName).properties.keys := by
      rcases (merged_comesFrom displayName s).properties p hp with hp | ⟨m, hm, href, hp⟩
      · exact ⟨s, h, hp, fun name hname => mem_keys_merged.2 (.inr hname)⟩
      · exact ⟨m, h.of_member hm, hp, fun name hname => mem_keys_merged.2 (.inl ⟨m, hm, href, hname⟩)⟩
    obtain ⟨name, hname⟩ := List.exists_mem_of_ne_nil _ (hc.keptNames_ne_nil (List.ne_nil_of_mem hcp))
    obtain ⟨hlisted, hkept⟩ := mem_map_kept.1 hname
    have hmem :
        name ∈ (Table.sift settings.excludes (without settings.excludes) (s.merged displayName).properties).keys := by
      rw [Table.keys_sift, List.mem_filter, hkept]
      exact ⟨hkeys name hlisted, rfl⟩
    rw [hnil] at hmem
    cases hmem
  · intro hnil
    rw [hnil]
    rfl

private theorem declaredMembers_sift {properties : List (Text × Schema)}
    (h : ∀ p ∈ properties, p.2.KeepsSome settings) (required : List Text) :
    declaredMembers settings.excludingNothing required
        (Table.sift settings.excludes (without settings.excludes) properties) =
      declaredMembers settings required properties := by
  rw [declaredMembers_eq_map, declaredMembers_eq_map, kept_sift, List.map_map]
  refine List.map_congr_left fun p hp => ?_
  have hcomment : (p.2.without settings.excludes).comment = p.2.comment := by rw [without_eq]; rfl
  simp only [Function.comp_apply, hcomment, type_without (h p (mem_kept.1 hp).1)]

theorem declare_without (h : s.KeepsSome settings) (name : Text) :
    (s.without settings.excludes).declare settings.excludingNothing name = s.declare settings name := by
  have htype := type_without h
  have hcomment : (s.without settings.excludes).comment = s.comment := by rw [without_eq]; rfl
  have hindex : (s.without settings.excludes).indexType settings.excludingNothing = s.indexType settings := by
    rw [without_eq, indexType, indexType, Option.map_map]
    have hadditional : s.additional.map (type settings.excludingNothing ∘ without settings.excludes) =
        s.additional.map (type settings) :=
      Option.map_congr fun a ha => type_without (h.of_part (mem_parts.2 (.inr (.inr (.inr ha)))))
    exact congrArg (fun t => if s.isOpen = true then some TypeExpr.unknown else t) hadditional
  have hmerged : (s.without settings.excludes).merged settings.excludingNothing.displayName =
      (s.merged settings.displayName).without settings.excludes := merged_without settings.displayName s
  have hproperties : ∀ p ∈ (s.merged settings.displayName).properties, p.2.KeepsSome settings := by
    intro p hp
    rcases (merged_comesFrom settings.displayName s).properties p hp with hp | ⟨m, hm, -, hp⟩
    · exact h.of_property hp
    · exact (h.of_member hm).of_property hp
  have hempty : (Table.sift settings.excludes (without settings.excludes)
      (s.merged settings.displayName).properties).isEmpty = (s.merged settings.displayName).properties.isEmpty := by
    rw [Bool.eq_iff_iff, List.isEmpty_iff, List.isEmpty_iff]
    exact sift_merged_eq_nil_iff h settings.displayName
  have hown : declaredMembers settings.excludingNothing (s.without settings.excludes).required
      (s.without settings.excludes).properties = declaredMembers settings s.required s.properties := by
    rw [without_eq]
    exact declaredMembers_sift (fun p hp => h.of_property hp) s.required
  have hmembers : (s.without settings.excludes).allOf.isEmpty = s.allOf.isEmpty := by
    rw [without_eq]
    exact List.isEmpty_map
  have hkind : (s.without settings.excludes).enum = s.enum ∧ (s.without settings.excludes).isObject = s.isObject := by
    rw [without_eq]
    exact ⟨rfl, rfl⟩
  unfold declare
  rw [hmembers, hkind.1, hkind.2, hcomment, htype, hindex, hown, hmerged]
  dsimp only [Merged.without]
  rw [hempty, declaredMembers_sift hproperties]

/-- The declaration and the type of a schema with properties excluded are those of the document without these
properties, as long as no object loses all it has. -/
theorem excluding_is_pruning (name : Text) (fields : Fields) (h : (ofFields fields).KeepsSome settings) :
    let pruned := ofFields (prune settings.excludes fields)
    ((ofFields fields).declare settings name).render = (pruned.declare settings.excludingNothing name).render ∧
      ((ofFields fields).type settings).render = (pruned.type settings.excludingNothing).render := by
  intro pruned
  have hpruned : pruned = (ofFields fields).without settings.excludes := ofFields_prune settings.excludes fields
  rw [hpruned, declare_without h, type_without h]
  exact ⟨rfl, rfl⟩

/-- An extended definition with an inline member and an array of objects, all of which have an excluded property. -/
theorem excluding_is_pruning_of_order :
    let settings : Settings := { excludedFields := ["internal"] }
    let typed (tag : Text) (entries : Fields) : Value := .object ((.text "type", .text tag) :: entries)
    let object (entries : Fields) : Value := typed "object" [(.text "properties", .object entries)]
    let internal : Scalar × Value := (.text "internal", typed "string" [])
    let line : Value := object [(.text "id", typed "integer" []), internal]
    let fields : Fields :=
      [(.text "allOf", .list [.object [(.text "$ref", .text "#/definitions/base")],
          object [internal, (.text "name", typed "string" [])]]),
        (.text "properties", .object [internal, (.text "lines", typed "array" [(.text "items", line)])])]
    let pruned := Schema.ofFields (prune settings.excludes fields)
    (ofFields fields).KeepsSome settings ∧
      ((ofFields fields).declare settings "Order").render =
        "export interface Order extends Base \x7b\n  name?: string\n  lines?: \x7b id?: number \x7d[]\n\x7d".toList ∧
      ((ofFields fields).declare settings "Order").render =
        (pruned.declare settings.excludingNothing "Order").render ∧
      ((ofFields fields).type settings).render = (pruned.type settings.excludingNothing).render := by
  intro settings typed object internal line fields pruned
  have hleaf (s : Schema) (hs : s.properties = []) (h : s.parts = []) : s.KeepsSome settings :=
    .mk (fun hne => absurd hs hne) fun c hc => absurd hc (by rw [h]; exact List.not_mem_nil)
  let scalar (tag : Text) : Schema := { Schema.empty with tag := some tag }
  let object' (properties : List (Text × Schema)) : Schema :=
    { Schema.empty with tag := some "object", hasProperties := true, properties }
  have hobject {properties : List (Text × Schema)} (hkept : (object' properties).keptNames settings ≠ [])
      (hparts : ∀ c ∈ (object' properties).parts, c.properties = [] ∧ c.parts = []) :
      (object' properties).KeepsSome settings :=
    .mk (fun _ => hkept) fun c hc => hleaf c (hparts c hc).1 (hparts c hc).2
  have hline : (object' [("id", scalar "integer"), ("internal", scalar "string")]).KeepsSome settings :=
    hobject (by decide) (by decide)
  have hinline : (object' [("internal", scalar "string"), ("name", scalar "string")]).KeepsSome settings :=
    hobject (by decide) (by decide)
  have hlines : ({ Schema.empty with
      tag := some "array", items := some (object' [("id", scalar "integer"), ("internal", scalar "string")]) } :
      Schema).KeepsSome settings := by
    refine .mk (fun hne => absurd rfl hne) fun c hc => ?_
    obtain rfl := List.mem_singleton.1 hc
    exact hline
  have h : (ofFields fields).KeepsSome settings := by
    refine .mk (fun _ => by decide) fun c hc => ?_
    rcases List.mem_cons.1 hc with rfl | hc
    · exact hleaf _ rfl rfl
    rcases List.mem_cons.1 hc with rfl | hc
    · exact hlines
    rcases List.mem_cons.1 hc with rfl | hc
    · exact hleaf _ rfl rfl
    · obtain rfl := List.mem_singleton.1 hc
      exact hinline
  exact ⟨h, by decide +kernel, excluding_is_pruning "Order" fields h⟩

end Schema

end ClientGen
