import ClientGen.Proofs.Document.Returns
import ClientGen.Proofs.Schema.Declared
import ClientGen.Proofs.TypeScript.FunctionsFile
/-!
# Generated code without carriage returns

A carriage return gets into generated code only by a name, by a text of an enumeration or by a path.
-/

namespace ClientGen

open Text Source

/-! ## Type expressions -/

namespace TypeExpr

mutual

/-- The names and the texts that a type expression is written with. -/
def words : TypeExpr → List Text
  | .keyword _ => []
  | .named name => [name]
  | .literals values => values.filterMap Value.text?
  | .intersection members => wordsOfAll members
  | .array item => words item
  | .grouped inner => words inner
  | .object members => wordsOfMembers members
  | .record values => words values
termination_by structural e => e

def wordsOfAll : List TypeExpr → List Text
  | [] => []
  | e :: es => words e ++ wordsOfAll es
termination_by structural es => es

def wordsOfMembers : List (Member TypeExpr) → List Text
  | [] => []
  | ⟨name, _, type⟩ :: ms => name :: words type ++ wordsOfMembers ms
termination_by structural ms => ms

end

private theorem notMem_literal {t : Text} (h : '\r' ∉ t) : '\r' ∉ literal t := by
  simp [literal, notMem_escapeLiteral (by decide) h]

private theorem notMem_renderLiteral {v : Value} (h : ∀ t, v.text? = some t → '\r' ∉ t) :
    '\r' ∉ renderLiteral v := by
  have hplain (hv : ∀ t, v ≠ .text t) : '\r' ∉ v.toText := Value.notMem_toText hv
  unfold renderLiteral
  split
  · next t => exact notMem_literal (h t rfl)
  · next b => cases b <;> decide
  · decide
  · next ht _ _ => exact hplain fun t hv => ht t hv

private theorem notMem_renderLiterals {vs : List Value} (h : ∀ t ∈ vs.filterMap Value.text?, '\r' ∉ t) :
    '\r' ∉ renderLiterals vs := by
  refine notMem_join (by decide) fun p hp => ?_
  obtain ⟨v, hv, rfl⟩ := List.mem_map.1 hp
  exact notMem_renderLiteral fun t ht => h t (List.mem_filterMap.2 ⟨v, hv, ht⟩)

private theorem notMem_renderMember {name type : Text} (hn : '\r' ∉ name) (ht : '\r' ∉ type)
    (isOptional : Bool) : '\r' ∉ renderMember name isOptional type := by
  have hname : '\r' ∉ Naming.propertyName name := by
    unfold Naming.propertyName
    split
    · exact hn
    · exact notMem_literal hn
  cases isOptional <;> simp [renderMember, hname, ht]

mutual

theorem notMem_render : (e : TypeExpr) → (∀ w ∈ e.words, '\r' ∉ w) → '\r' ∉ e.render
  | .keyword k, _ => by cases k <;> decide
  | .named name, h => h name (List.mem_singleton_self name)
  | .literals values, h => notMem_renderLiterals h
  | .intersection members, h => notMem_join (by decide) (notMem_renderAll members h)
  | .array item, h => List.not_mem_append (notMem_render item h) (by decide)
  | .grouped inner, h =>
    List.not_mem_append (List.not_mem_append (by decide) (notMem_render inner h)) (by decide)
  | .object members, h =>
    List.not_mem_append (List.not_mem_append (by decide)
      (notMem_join (by decide) (notMem_renderMembers members h))) (by decide)
  | .record values, h =>
    List.not_mem_append (List.not_mem_append (by decide) (notMem_render values h)) (by decide)
termination_by structural e => e

private theorem notMem_renderAll : (es : List TypeExpr) → (∀ w ∈ wordsOfAll es, '\r' ∉ w) →
    ∀ p ∈ renderAll es, '\r' ∉ p
  | [], _, p, hp => by cases hp
  | e :: es, h, p, hp => by
    rcases List.mem_cons.1 hp with rfl | hp
    · exact notMem_render e fun w hw => h w (List.mem_append_left _ hw)
    · exact notMem_renderAll es (fun w hw => h w (List.mem_append_right _ hw)) p hp
termination_by structural es => es

private theorem notMem_renderMembers : (ms : List (Member TypeExpr)) →
    (∀ w ∈ wordsOfMembers ms, '\r' ∉ w) → ∀ p ∈ renderMembers ms, '\r' ∉ p
  | [], _, p, hp => by cases hp
  | ⟨name, isOptional, type⟩ :: ms, h, p, hp => by
    rcases List.mem_cons.1 hp with rfl | hp
    · have htype := notMem_render type fun w hw =>
        h w (List.mem_append_left _ (List.mem_cons_of_mem _ hw))
      exact notMem_renderMember (h name List.mem_cons_self) htype isOptional
    · exact notMem_renderMembers ms (fun w hw => h w (List.mem_append_right _ hw)) p hp
termination_by structural ms => ms

end

end TypeExpr

/-! ## Types files -/

private theorem notMem_collapse (t : Text) : '\r' ∉ collapse t := by
  intro hc
  rcases mem_collapse hc with hc | ⟨-, hc⟩
  · exact absurd hc (by decide)
  · exact absurd hc (by decide)

private theorem notMem_commentLine {margin : Text} {comment : Option Text} (hm : '\r' ∉ margin)
    (hc : ∀ c ∈ comment, '\r' ∉ c) : ∀ l ∈ commentLine margin comment, '\r' ∉ l := by
  intro l hl
  cases comment with
  | none => cases hl
  | some c =>
    rw [List.mem_singleton.1 hl]
    exact List.not_mem_append (List.not_mem_append (List.not_mem_append hm (by decide)) (hc c rfl)) (by decide)

namespace DeclaredMember

def words (m : DeclaredMember) : List Text := m.member.name :: m.member.type.words

private theorem notMem_lines {m : DeclaredMember} (hc : ∀ c ∈ m.comment, '\r' ∉ c)
    (hw : ∀ w ∈ m.words, '\r' ∉ w) : ∀ l ∈ m.lines, '\r' ∉ l := by
  intro l hl
  rcases List.mem_append.1 hl with hl | hl
  · exact notMem_commentLine (by decide) hc l hl
  · have htype := m.member.type.notMem_render fun w hw' => hw w (List.mem_cons_of_mem _ hw')
    rw [List.mem_singleton.1 hl]
    exact List.not_mem_append (by decide)
      (TypeExpr.notMem_renderMember (hw _ List.mem_cons_self) htype _)

end DeclaredMember

namespace Declaration

/-- The names and the texts that a declaration is written with. -/
def words : Declaration → List Text
  | .interface _ name parents members index =>
    name :: parents ++ members.flatMap DeclaredMember.words ++ (index.map TypeExpr.words).getD []
  | .typeAlias _ name type => name :: type.words

def comments : Declaration → List Text
  | .interface comment _ _ members _ => comment.toList ++ members.filterMap DeclaredMember.comment
  | .typeAlias comment _ _ => comment.toList

private theorem notMem_heritage {parents : List Text} (h : ∀ p ∈ parents, '\r' ∉ p) :
    '\r' ∉ heritage parents := by
  unfold heritage
  split
  · simp
  · exact List.not_mem_append (by decide) (notMem_join (by decide) h)

private theorem notMem_indexLines {index : Option TypeExpr}
    (h : ∀ type ∈ index, ∀ w ∈ type.words, '\r' ∉ w) : ∀ l ∈ indexLines index, '\r' ∉ l := by
  intro l hl
  cases index with
  | none => cases hl
  | some type =>
    rw [List.mem_singleton.1 hl]
    exact List.not_mem_append (by decide) (type.notMem_render (h type rfl))

theorem notMem_render {d : Declaration} (hc : ∀ c ∈ d.comments, '\r' ∉ c) (hw : ∀ w ∈ d.words, '\r' ∉ w) :
    '\r' ∉ d.render := by
  refine notMem_join (by decide) fun l hl => ?_
  cases d with
  | interface comment name parents members index =>
    have hname := hw name List.mem_cons_self
    have hparents : ∀ p ∈ parents, '\r' ∉ p := fun p hp =>
      hw p (List.mem_append_left _ (List.mem_append_left _ (List.mem_cons_of_mem _ hp)))
    have hmembers : ∀ m ∈ members, ∀ w ∈ m.words, '\r' ∉ w := fun m hm w hw' =>
      hw w (List.mem_append_left _ (List.mem_append_right _ (List.mem_flatMap.2 ⟨m, hm, hw'⟩)))
    have hindex : ∀ type ∈ index, ∀ w ∈ type.words, '\r' ∉ w := by
      rintro type rfl w hw'
      exact hw w (List.mem_append_right _ hw')
    rcases List.mem_append.1 hl with hl | hl
    · rcases List.mem_append.1 hl with hl | hl
      · rcases List.mem_append.1 hl with hl | hl
        · rcases List.mem_append.1 hl with hl | hl
          · exact notMem_commentLine (by simp)
              (fun c hm => hc c (List.mem_append_left _ (Option.mem_toList.2 hm))) l hl
          · rw [List.mem_singleton.1 hl]
            exact List.not_mem_append (List.not_mem_append (List.not_mem_append (by decide) hname)
              (notMem_heritage hparents)) (by decide)
        · obtain ⟨m, hm, hl⟩ := List.mem_flatMap.1 hl
          exact m.notMem_lines (fun c hm' => hc c (List.mem_append_right _ (List.mem_filterMap.2 ⟨m, hm, hm'⟩)))
            (hmembers m hm) l hl
      · exact notMem_indexLines hindex l hl
    · rw [List.mem_singleton.1 hl]
      decide
  | typeAlias comment name type =>
    rcases List.mem_append.1 hl with hl | hl
    · exact notMem_commentLine (by simp) (fun c hm => hc c (Option.mem_toList.2 hm)) l hl
    · have htype := type.notMem_render fun w hw' => hw w (List.mem_cons_of_mem _ hw')
      rw [List.mem_singleton.1 hl]
      exact List.not_mem_append (List.not_mem_append (List.not_mem_append (by decide)
        (hw _ List.mem_cons_self)) (by decide)) htype

end Declaration

private theorem notMem_comment {s : Schema} : ∀ c ∈ s.comment, '\r' ∉ c := by
  intro c hc
  obtain ⟨t, -, rfl⟩ := Option.map_eq_some_iff.1 hc
  exact notMem_collapse _

private theorem notMem_declaredMembers {settings : Settings} {required : List Text}
    {properties : List (Text × Schema)} :
    ∀ c ∈ (Schema.declaredMembers settings required properties).filterMap DeclaredMember.comment,
      '\r' ∉ c := by
  intro c hc
  obtain ⟨m, hm, hc⟩ := List.mem_filterMap.1 hc
  obtain ⟨p, -, rfl⟩ := List.mem_map.1 hm
  exact notMem_comment c hc

private theorem notMem_paramsDeclaration (settings : Settings) (name : Text) (ps : List Parameter) :
    ∀ c ∈ (paramsDeclaration settings name ps).comments, '\r' ∉ c := by
  intro c hc
  rcases List.mem_append.1 hc with hc | hc
  · cases hc
  · obtain ⟨m, hm, hc⟩ := List.mem_filterMap.1 hc
    obtain ⟨p, -, rfl⟩ := List.mem_map.1 hm
    obtain ⟨t, -, rfl⟩ := Option.map_eq_some_iff.1 hc
    exact notMem_collapse _

private theorem notMem_comments {settings : Settings} {types : List NamedType} {operations : List Operation}
    {d : Declaration} (hd : d ∈ typesFileDeclarations settings types operations) :
    ∀ c ∈ d.comments, '\r' ∉ c := by
  rcases List.mem_append.1 hd with hd | hd
  · obtain ⟨t, -, rfl⟩ := List.mem_map.1 hd
    have hdeclared := Schema.declaredAs_declare settings t.name t.schema
    generalize t.schema.declare settings t.name = d at hdeclared
    intro c hc
    cases hdeclared with
    | parents => exact notMem_comment c (Option.mem_toList.1 hc)
    | merged =>
      rcases List.mem_append.1 hc with hc | hc
      · exact notMem_comment c (Option.mem_toList.1 hc)
      · exact notMem_declaredMembers c hc
    | enum => exact notMem_comment c (Option.mem_toList.1 hc)
    | object =>
      rcases List.mem_append.1 hc with hc | hc
      · exact notMem_comment c (Option.mem_toList.1 hc)
      · exact notMem_declaredMembers c hc
    | other => exact notMem_comment c (Option.mem_toList.1 hc)
  · obtain ⟨o, -, ho⟩ := List.mem_filterMap.1 hd
    unfold Operation.paramsDeclaration? at ho
    split at ho
    · split at ho
      · cases ho
      · obtain rfl := Option.some.inj ho
        exact notMem_paramsDeclaration _ _ _
    · cases ho

/-- A types file is written with no carriage return but those of its names and texts. -/
theorem notMem_renderTypesFile {settings : Settings} {types : List NamedType} {operations : List Operation}
    (h : ∀ d ∈ typesFileDeclarations settings types operations, ∀ w ∈ d.words, '\r' ∉ w) :
    '\r' ∉ renderTypesFile settings types operations := by
  refine notMem_join (by decide) fun l hl => ?_
  rcases List.mem_cons.1 hl with rfl | hl
  · decide +kernel
  obtain ⟨d, hd, hl⟩ := List.mem_flatMap.1 hl
  rcases List.mem_cons.1 hl with rfl | hl
  · exact Declaration.notMem_render (notMem_comments hd) (h d hd)
  · rw [List.mem_singleton.1 hl]
    simp

/-! ## Request functions -/

namespace Operation

variable {o : Operation} {settings : Settings}

theorem IsLegible.notMem_requestPath (h : o.IsLegible) (hp : '\r' ∉ o.cleanPath) : '\r' ∉ o.requestPath := by
  have hpath : ∀ c ∈ o.pathParams.foldl interpolate o.cleanPath, c ≠ '\r' := by
    refine forall_mem_interpolated (by decide) (fun p hm c hc => ?_) fun c hc heq => hp (heq ▸ hc)
    exact ne_of_isIdentChar (Naming.isIdentChar_of_mem_paramIdentifier (h.params_plain p hm) c hc) (by decide)
  have hquote : (if o.pathParams.isEmpty then '\'' else '\x60') ≠ '\r' := by
    split <;> decide
  unfold requestPath
  simp only [List.cons_append, List.mem_cons, List.mem_append, List.not_mem_nil, or_false, not_or]
  exact ⟨hquote.symm, fun hc => hpath _ hc rfl, hquote.symm⟩

private theorem IsLegible.notMem_method (h : o.IsLegible) : '\r' ∉ lower o.method :=
  fun hc => absurd (h.isIdentChar_of_mem_method _ hc) (by decide)

private theorem notMem_chainCall (h : o.IsLegible) (hp : '\r' ∉ o.cleanPath) {client response : Text}
    (hc : '\r' ∉ client) (hr : '\r' ∉ response) : ∀ l ∈ chainCall client o response, '\r' ∉ l := by
  have hmethod := h.notMem_method
  have harguments : '\r' ∉ join ", " o.chainArguments := by
    refine notMem_join (by decide) fun e he => ?_
    simp only [chainArguments, List.cons_append, List.mem_cons, List.mem_append,
      List.mem_ite_nil_right, List.not_mem_nil, or_false] at he
    rcases he with rfl | ⟨-, rfl⟩ | ⟨-, rfl⟩
    · exact h.notMem_requestPath hp
    · decide
    · decide
  intro l hl
  rw [List.mem_singleton.1 hl]
  have hcallee : '\r' ∉ "  return " ++ client ++ "." ++ lower o.method :=
    List.not_mem_append (List.not_mem_append (List.not_mem_append (by decide) hc) (by decide)) hmethod
  have htype : '\r' ∉ "  return " ++ client ++ "." ++ lower o.method ++ "<" ++ response :=
    List.not_mem_append (List.not_mem_append hcallee (by decide)) hr
  exact List.not_mem_append (List.not_mem_append (List.not_mem_append htype (by decide)) harguments)
    (by decide)

private theorem notMem_objectCall (h : o.IsLegible) (hp : '\r' ∉ o.cleanPath) {client response : Text}
    (hc : '\r' ∉ client) (hr : '\r' ∉ response) : ∀ l ∈ objectCall client o response, '\r' ∉ l := by
  have hmethod := h.notMem_method
  have hentries : '\r' ∉ join ",\n" o.objectEntries := by
    refine notMem_join (by decide) fun e he => ?_
    simp only [objectEntries, List.mem_append, List.mem_cons, List.mem_ite_nil_right,
      List.not_mem_nil, or_false] at he
    rcases he with ((rfl | rfl) | ⟨-, rfl⟩) | ⟨-, rfl⟩
    · exact List.not_mem_append (by decide) (h.notMem_requestPath hp)
    · exact List.not_mem_append (List.not_mem_append (by decide) hmethod) (by decide)
    · decide
    · decide
  intro l hl
  rcases List.mem_cons.1 hl with rfl | hl
  · have hcallee : '\r' ∉ "  return " ++ client := List.not_mem_append (by decide) hc
    exact List.not_mem_append (List.not_mem_append (List.not_mem_append hcallee (by decide)) hr) (by decide)
  rcases List.mem_cons.1 hl with rfl | hl
  · exact hentries
  · rw [List.mem_singleton.1 hl]
    decide

theorem IsLegible.notMem_renderFunction (h : o.IsLegible) (hp : '\r' ∉ o.cleanPath)
    (hc : IsDotted settings.requestClient) : '\r' ∉ o.renderFunction settings := by
  have hclient : '\r' ∉ settings.requestClient := fun hm => absurd (hc.mem hm) (by decide)
  have hresponse : '\r' ∉ (named? o.responseType).getD "unknown" :=
    fun hm => absurd (h.response_named.mem hm) (by decide)
  have hhead : '\r' ∉ o.headLine := fun hm => absurd (h.mem_headLine hm) (by decide)
  have hcall : '\r' ∉ o.callText settings := by
    refine notMem_join (by decide) ?_
    unfold callLines
    cases settings.requestStyle with
    | chain => exact notMem_chainCall h hp hclient hresponse
    | object => exact notMem_objectCall h hp hclient hresponse
  have hcode : '\r' ∉ o.functionCode settings := by
    simp [functionCode, hhead, hcall]
  rw [renderFunction_eq]
  cases named? o.summary with
  | none => exact hcode
  | some s =>
    have hcomment : '\r' ∉ "/** ".toList ++ collapse s ++ " */".toList ++ ['\n'] :=
      List.not_mem_append (List.not_mem_append (List.not_mem_append (by decide) (notMem_collapse s))
        (by decide)) (by decide)
    exact List.not_mem_append hcomment hcode

end Operation

theorem notMem_functionsText {settings : Settings} {operations : List Operation}
    (hl : ∀ o ∈ operations, o.IsLegible) (hp : ∀ o ∈ operations, '\r' ∉ o.cleanPath)
    (hc : IsDotted settings.requestClient) : '\r' ∉ functionsText settings operations := by
  intro hm
  obtain ⟨o, ho, hm⟩ := List.mem_flatMap.1 hm
  rcases List.mem_append.1 hm with hm | hm
  · exact (hl o ho).notMem_renderFunction (hp o ho) hc hm
  · exact absurd hm (by decide)

end ClientGen
