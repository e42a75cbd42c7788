import ClientGen.Proofs.Api.ClosedGroups
import ClientGen.Proofs.Api.Pointer
/-!
# Definitions behind references

A reference to a definition is looked up in two ways: in the document, by the keys of its tokens, and among the
definitions, by the text behind its prefix. The first way reads a tilde and a slash as they are spelled in tokens, the
second one does not, so they agree on the names that hold neither.
-/

namespace ClientGen

open Text

namespace Pointer

/-! ## Tokens -/

/-- The token of a key: `~0` is written for a tilde and `~1` for a slash. -/
def token (k : Text) : Text := k.flatMap fun c => if c = '~' then "~0" else if c = '/' then "~1" else [c]

/-- A key is plain if it is its own token. -/
def IsPlainKey (k : Text) : Prop := '~' ∉ k ∧ '/' ∉ k

instance : DecidablePred IsPlainKey := fun k => inferInstanceAs (Decidable ('~' ∉ k ∧ '/' ∉ k))

theorem token_cons (c : Char) (k : Text) :
    token (c :: k) = (if c = '~' then "~0".toList else if c = '/' then "~1".toList else [c]) ++ token k :=
  List.flatMap_cons

theorem notMem_token (k : Text) : '/' ∉ token k := by
  induction k with
  | nil => exact List.not_mem_nil
  | cons c k ih =>
    rw [token_cons, List.mem_append, not_or]
    refine ⟨?_, ih⟩
    split
    · decide
    · split
      · decide
      · next hslash => simpa using Ne.symm hslash

theorem token_of_isPlainKey {k : Text} (h : IsPlainKey k) : token k = k := by
  induction k with
  | nil => rfl
  | cons c k ih =>
    obtain ⟨htilde, hslash⟩ := h
    rw [List.mem_cons, not_or] at htilde hslash
    rw [token_cons, if_neg (Ne.symm htilde.1), if_neg (Ne.symm hslash.1), ih ⟨htilde.2, hslash.2⟩,
      List.singleton_append]

/-- A token with its slashes read, and its tildes not yet. -/
private def slashed (k : Text) : Text := k.flatMap fun c => if c = '~' then "~0" else [c]

private theorem slashed_cons (c : Char) (k : Text) :
    slashed (c :: k) = (if c = '~' then "~0".toList else [c]) ++ slashed k :=
  List.flatMap_cons

private theorem not_prefix_of_head {p t : Text} {c d : Char} (hp : p.head? = some c) (h : d ≠ c) : ¬p <+: d :: t := by
  rintro ⟨r, hr⟩
  have hhead := congrArg List.head? hr
  rw [List.head?_append, hp, Option.some_or, List.head?_cons] at hhead
  exact h (Option.some.inj hhead).symm

private theorem replace_token (k : Text) : replace "~1" "/" (token k) = slashed k := by
  induction k with
  | nil => rfl
  | cons c k ih =>
    rw [token_cons, slashed_cons]
    by_cases htilde : c = '~'
    · have hzero : ¬"~1".toList <+: '~' :: '0' :: token k := fun h =>
        absurd (List.cons_prefix_cons.1 (List.cons_prefix_cons.1 h).2).1 (by decide)
      have hrest : replace "~1" "/" ('0' :: token k) = '0' :: slashed k := by
        rw [replace_cons (not_prefix_of_head rfl (by decide)), ih]
      rw [if_pos htilde, if_pos htilde]
      exact (replace_cons hzero _).trans (congrArg _ hrest)
    by_cases hslash : c = '/'
    · rw [if_neg htilde, if_pos hslash, if_neg htilde, replace_append (by decide), ih, hslash]
      rfl
    · rw [if_neg htilde, if_neg hslash, if_neg htilde, List.singleton_append,
        replace_cons (not_prefix_of_head rfl htilde), ih, List.singleton_append]

private theorem replace_slashed (k : Text) : replace "~0" "~" (slashed k) = k := by
  induction k with
  | nil => rfl
  | cons c k ih =>
    rw [slashed_cons]
    by_cases htilde : c = '~'
    · rw [if_pos htilde, replace_append (by decide), ih, htilde]
      rfl
    · rw [if_neg htilde, List.singleton_append, replace_cons (not_prefix_of_head rfl htilde), ih]

theorem key_token (k : Text) : key (token k) = k := by
  rw [key, replace_token, replace_slashed]

end Pointer

/-! ## References to definitions -/

namespace Dialect

variable (dialect : Dialect) (document : Fields) (k : Text)

/-- Where the references to definitions begin. -/
def refPrefix : Dialect → Text
  | swagger2 => "#/definitions/"
  | openapi3 => "#/components/schemas/"

/-- The keys under which the definitions stand. -/
def sections : Dialect → List Text
  | swagger2 => ["definitions"]
  | openapi3 => ["components", "schemas"]

def reference : Text := dialect.refPrefix ++ Pointer.token k

theorem refName_reference : Schema.refName (dialect.reference k) = Pointer.token k := by
  cases dialect with
  | openapi3 =>
    have hrest : afterStart? "#/components/schemas/" (openapi3.reference k) = some (Pointer.token k) :=
      afterStart?_append _ _
    rw [Schema.refName, Schema.refPrefixes, List.findSome?_cons, hrest, Option.getD_some]
  | swagger2 =>
    have hother : afterStart? "#/components/schemas/" (swagger2.reference k) = none := rfl
    have hrest : afterStart? "#/definitions/" (swagger2.reference k) = some (Pointer.token k) :=
      afterStart?_append _ _
    rw [Schema.refName, Schema.refPrefixes, List.findSome?_cons, hother, List.findSome?_cons, hrest, Option.getD_some]

theorem keys?_reference : Pointer.keys? (dialect.reference k) = some (dialect.sections ++ [k]) := by
  have hprefix : dialect.refPrefix = "#/".toList ++ (join "/" dialect.sections ++ "/".toList) := by
    cases dialect <;> decide
  have hne : dialect.sections ≠ [] := by cases dialect <;> decide
  have hpath : dialect.reference k = "#/".toList ++ join "/" (dialect.sections ++ [Pointer.token k]) := by
    rw [reference, hprefix, join_append hne (List.cons_ne_nil _ _), join_singleton, List.append_assoc]
  have htokens : ∀ t ∈ dialect.sections ++ [Pointer.token k], '/' ∉ t := by
    refine List.forall_mem_append.2 ⟨?_, List.forall_mem_singleton.2 (Pointer.notMem_token k)⟩
    cases dialect <;> decide
  have hsplit : splitOn '/' (join "/" (dialect.sections ++ [Pointer.token k])) =
      dialect.sections ++ [Pointer.token k] := splitOn_join (by simp) htokens
  have hsections : dialect.sections.map Pointer.key = dialect.sections := by
    cases dialect <;> decide
  rw [Pointer.keys?, hpath, afterStart?_append, Option.map_some, hsplit, List.map_append, hsections,
    List.map_singleton, Pointer.key_token]

theorem lookup?_reference :
    Pointer.lookup? document (dialect.reference k) = (dialect.definitions document).get? k := by
  have hlast (v : Option Value) : v.bind (Pointer.descend? [k]) = ((v.bind Value.fields?).getD []).get? k := by
    cases v with
    | none => rfl
    | some v => cases v <;> simp [Pointer.descend?, Value.fields?]
  rw [Pointer.lookup?, dialect.keys?_reference, Option.bind_some]
  cases dialect with
  | swagger2 => exact hlast (document.get? "definitions")
  | openapi3 =>
    have hschemas : (document.get? "components").bind (Pointer.descend? ["schemas", k]) =
        ((document.child? "components").bind (·.get? "schemas")).bind (Pointer.descend? [k]) := by
      rw [Fields.child?]
      cases document.get? "components".toList with
      | none => rfl
      | some components => cases components <;> rfl
    have hdefinitions : ((document.child? "components").bind (·.get? "schemas")).bind Value.fields? =
        (document.child? "components").bind (·.child? "schemas") := Option.bind_assoc _ _ _
    exact hschemas.trans ((hlast _).trans (by rw [hdefinitions]; rfl))

end Dialect

/-! ## The schemas of the definitions -/

section Definitions

variable {definitions : Fields} {k : Text}

private theorem mem_of_get? {v : Value} (h : definitions.get? k = some v) : (.text k, v) ∈ definitions := by
  induction definitions with
  | nil => cases h
  | cons e definitions ih =>
    obtain ⟨key, w⟩ := e
    rw [Fields.get?_cons] at h
    split at h
    · next hkey =>
      obtain rfl := Option.some.inj h
      exact hkey ▸ List.mem_cons_self
    · exact List.mem_cons_of_mem _ (ih h)

private theorem get?_definitionSchemas_cons (key : Scalar) (v : Value) :
    (definitionSchemas ((key, v) :: definitions)).get? k =
      if key = .text k then (v.fields?.map Schema.ofFields).or ((definitionSchemas definitions).get? k)
      else (definitionSchemas definitions).get? k := by
  cases key with
  | text name =>
    cases v with
    | object fields =>
      have hcons : definitionSchemas ((.text name, .object fields) :: definitions) =
          (name, Schema.ofFields fields) :: definitionSchemas definitions := rfl
      rw [hcons, Table.get?]
      by_cases hname : name = k
      · rw [if_pos hname, if_pos (congrArg Scalar.text hname)]
        rfl
      · rw [if_neg hname, if_neg fun h => hname (Scalar.text.inj h)]
    | _ => exact (ite_self _).symm
  | _ => rfl

theorem get?_definitionSchemas {fields : Fields} (h : definitions.get? k = some (.object fields)) :
    (definitionSchemas definitions).get? k = some (Schema.ofFields fields) := by
  induction definitions with
  | nil => cases h
  | cons e definitions ih =>
    obtain ⟨key, v⟩ := e
    rw [Fields.get?_cons] at h
    rw [get?_definitionSchemas_cons]
    by_cases hkey : key = .text k
    · rw [if_pos hkey] at h ⊢
      obtain rfl := Option.some.inj h
      rfl
    · rw [if_neg hkey] at h ⊢
      exact ih h

private theorem get?_definitionSchemas_of_none (h : definitions.get? k = none) :
    (definitionSchemas definitions).get? k = none := by
  induction definitions with
  | nil => rfl
  | cons e definitions ih =>
    obtain ⟨key, v⟩ := e
    rw [Fields.get?_cons] at h
    rw [get?_definitionSchemas_cons]
    by_cases hkey : key = .text k
    · rw [if_pos hkey] at h
      cases h
    · rw [if_neg hkey] at h ⊢
      exact ih h

theorem get?_definitionSchemas_eq (h : definitions.Distinct) :
    (definitionSchemas definitions).get? k = ((definitions.get? k).bind Value.fields?).map Schema.ofFields := by
  induction definitions with
  | nil => rfl
  | cons e definitions ih =>
    obtain ⟨key, v⟩ := e
    obtain ⟨hfirst, hrest⟩ := List.pairwise_cons.1 h
    rw [Fields.get?_cons, get?_definitionSchemas_cons]
    by_cases hkey : key = .text k
    · have hnone : Fields.get? k definitions = none := by
        refine Option.eq_none_iff_forall_ne_some.2 fun w hw => ?_
        have hsame : key.sameKey (.text k) = false := hfirst _ (mem_of_get? hw)
        rw [Scalar.sameKey_text_iff.2 hkey] at hsame
        cases hsame
      rw [if_pos hkey, if_pos hkey, get?_definitionSchemas_of_none hnone, Option.or_none, Option.bind_some]
    · rw [if_neg hkey, if_neg hkey, ih hrest]

end Definitions

/-! ## Both lookups -/

/-- In the document, the reference to a definition leads to what stands under its name. Among the definitions it is looked
up under the token of its name: a name without a tilde and a slash is its own token, so that both lookups agree, whether
there is such a definition or not; any other definition is taken for the one that is named by its token, and if there is
none the reference leads nowhere. -/
theorem definition_lookups_agree_iff (displayName : Text → Text) (document : Fields) (k : Text) :
    let dialect := Dialect.ofDocument document
    let ref := dialect.reference k
    let schema? := (documentDefinitions document).get? (Schema.refName ref)
    let other? := (documentDefinitions document).get? (Pointer.token k)
    Pointer.lookup? document ref = (dialect.definitions document).get? k ∧
    (∀ fields, (dialect.definitions document).get? k = some (.object fields) →
      (schema? = some (Schema.ofFields fields) ↔
        Pointer.IsPlainKey k ∨ other? = some (Schema.ofFields fields)) ∧
      (schema? = none ↔ ¬Pointer.IsPlainKey k ∧ other? = none)) ∧
    ((dialect.definitions document).Distinct → Pointer.IsPlainKey k →
      schema? = ((Pointer.lookup? document ref).bind Value.fields?).map Schema.ofFields) ∧
    (closure displayName (documentDefinitions document) [ref] = [] ↔ schema? = none) := by
  intro dialect ref schema? other?
  have hlookup : Pointer.lookup? document ref = (dialect.definitions document).get? k :=
    dialect.lookup?_reference document k
  have hschema : schema? = other? := congrArg (Table.get? · _) (dialect.refName_reference k)
  refine ⟨hlookup, fun fields hk => ?_, fun hdistinct hplain => ?_, ?_⟩
  · have hplain (h : Pointer.IsPlainKey k) : other? = some (Schema.ofFields fields) := by
      have hself : other? = (documentDefinitions document).get? k :=
        congrArg (Table.get? · _) (Pointer.token_of_isPlainKey h)
      exact hself.trans (get?_definitionSchemas hk)
    rw [hschema]
    refine ⟨⟨.inr, fun h => h.elim hplain id⟩, ⟨fun h => ⟨fun hp => ?_, h⟩, And.right⟩⟩
    rw [hplain hp] at h
    cases h
  · have hself : other? = (documentDefinitions document).get? k :=
      congrArg (Table.get? · _) (Pointer.token_of_isPlainKey hplain)
    rw [hschema, hself, hlookup]
    exact get?_definitionSchemas_eq hdistinct
  · rw [closure, List.map_eq_nil_iff, List.map_singleton]
    cases hfound : schema? with
    | none => exact iff_of_true ((walk_skipped _ (.inr hfound)).trans (walk_nil _ _)) rfl
    | some s => simp [walk_visited _ List.not_mem_nil hfound]

/-- Both lookups find a user among the schemas of the components, and neither finds a ghost. -/
theorem definition_lookups_agree_of_user :
    let user : Fields := [(.text "type", .text "object")]
    let schemas : Fields := [(.text "User", .object user)]
    let document : Fields :=
      [(.text "openapi", .text "3.0.0"), (.text "components", .object [(.text "schemas", .object schemas)])]
    Pointer.lookup? document "#/components/schemas/User" = some (.object user) ∧
      (documentDefinitions document).get? (Schema.refName "#/components/schemas/User") =
        some (Schema.ofFields user) ∧
      Pointer.lookup? document "#/components/schemas/Ghost" = none ∧
      (documentDefinitions document).get? (Schema.refName "#/components/schemas/Ghost") = none := by
  intro user schemas document
  have hdistinct : schemas.Distinct := List.pairwise_singleton _ _
  obtain ⟨huser, hagree, -, -⟩ := definition_lookups_agree_iff id document "User"
  obtain ⟨hghost, -, hmissing, -⟩ := definition_lookups_agree_iff id document "Ghost"
  have hplain : (documentDefinitions document).get? (Schema.refName "#/components/schemas/Ghost") =
      ((Pointer.lookup? document "#/components/schemas/Ghost").bind Value.fields?).map Schema.ofFields :=
    hmissing hdistinct (by decide)
  have hnone : Pointer.lookup? document "#/components/schemas/Ghost" = none := hghost
  exact ⟨huser, (hagree user rfl).1.2 (.inl (by decide)), hnone, by rw [hplain, hnone]; rfl⟩

/-- A name with a slash: its reference leads to the definition in the document, and nowhere among the definitions. -/
theorem definition_lookups_disagree :
    let user : Fields := [(.text "type", .text "object")]
    let document : Fields := [(.text "definitions", .object [(.text "x/y.User", .object user)])]
    let ref := (Dialect.ofDocument document).reference "x/y.User"
    ref = "#/definitions/x~1y.User" ∧
      ((Dialect.ofDocument document).definitions document).get? "x/y.User" = some (.object user) ∧
      Pointer.lookup? document ref = some (.object user) ∧
      (documentDefinitions document).get? (Schema.refName ref) = none ∧
      closure id (documentDefinitions document) [ref] = [] := by
  intro user document ref
  have hmissing : (documentDefinitions document).get? (Schema.refName ref) = none := rfl
  exact ⟨rfl, rfl, rfl, hmissing, by rw [closure, List.map_singleton, walk_skipped _ (.inr hmissing), walk_nil]; rfl⟩

end ClientGen
