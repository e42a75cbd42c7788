import ClientGen.Proofs.Api.Model
import ClientGen.Proofs.Api.Signature
import ClientGen.TypeScript.TypesFile
/-!
# Closed groups

The files of a group are closed under reference: what the functions file imports and what the types file
mentions is declared in the types file, as long as the document defines what its schemas refer to.
-/

namespace ClientGen

open Text

variable {settings : Settings} {aliases : Aliases} {document : Fields}

/-! ## The schemas of a document -/

/-- The schemas of the parameters, the body and the response of an operation. -/
def OperationParts.schemas (parts : OperationParts) : List Schema :=
  (parts.parameterSchemas ++ parts.body.toList ++ parts.response.toList).map Schema.ofFields

/-- The schemas of the operations that code is generated for. -/
def operationSchemas (settings : Settings) (document : Fields) : List Schema :=
  (acceptedOperations settings document).flatMap fun raw =>
    ((Dialect.ofDocument document).parts document raw).schemas

/-- The schemas of the definitions of a document. -/
def documentDefinitions (document : Fields) : Table Schema :=
  definitionSchemas ((Dialect.ofDocument document).definitions document)

/-- The definitions that the operations lead to. -/
abbrev ReachedDefinition (settings : Settings) (document : Fields) : Text → Schema → Prop :=
  Reached (documentDefinitions document) ((operationSchemas settings document).flatMap Schema.refs)

/-- The schemas that code is generated from. -/
inductive IsUsed (settings : Settings) (document : Fields) : Schema → Prop
  | operation {s : Schema} (h : s ∈ operationSchemas settings document) : IsUsed settings document s
  | definition {name : Text} {s : Schema} (h : ReachedDefinition settings document name s) :
    IsUsed settings document s

/-- A document that defines what it refers to: every reference stands alone and leads to a definition, and
the definitions that are reached are declared under identifiers. -/
structure HasClosedReferences (settings : Settings) (document : Fields) : Prop where
  defined : ∀ s, IsUsed settings document s → ∀ ref, s.Mentions ref →
    ∃ definition, (documentDefinitions document).get? (Schema.refName ref) = some definition
  alone : ∀ s, IsUsed settings document s → s.RefsAlone
  named : ∀ name s, ReachedDefinition settings document name s →
    isIdentifier (settings.displayName name) = true

namespace HasClosedReferences

variable {s : Schema} {ref : Text}

/-- A document has closed references if all its schemas do, whether they are reached or not. -/
theorem of_schemas
    (hschemas : ∀ s ∈ operationSchemas settings document ++ (documentDefinitions document).map Prod.snd,
      s.RefsAlone ∧ ∀ ref ∈ s.refs, ((documentDefinitions document).get? (Schema.refName ref)).isSome = true)
    (hnames : ∀ name ∈ (documentDefinitions document).keys, isIdentifier (settings.displayName name) = true) :
    HasClosedReferences settings document := by
  have hlisted {s : Schema} (hs : IsUsed settings document s) :
      s ∈ operationSchemas settings document ++ (documentDefinitions document).map Prod.snd := by
    cases hs with
    | operation hs => exact List.mem_append_left _ hs
    | definition hs => exact List.mem_append_right _ (List.mem_map_of_mem (Table.mem_of_get? hs.get?_eq))
  refine ⟨fun s hs ref hm => ?_, fun s hs => (hschemas s (hlisted hs)).1, fun name s hs => ?_⟩
  · exact Option.isSome_iff_exists.1 ((hschemas s (hlisted hs)).2 ref (Schema.mem_refs_iff.2 hm))
  · exact hnames name (Table.mem_keys_of_get? hs.get?_eq)

theorem reached (h : HasClosedReferences settings document) (hs : IsUsed settings document s)
    (hm : s.Mentions ref) :
    ∃ definition, ReachedDefinition settings document (Schema.refName ref) definition := by
  obtain ⟨definition, hd⟩ := h.defined s hs ref hm
  cases hs with
  | operation hs => exact ⟨definition, .root (List.mem_flatMap.2 ⟨s, hs, Schema.mem_refs_iff.2 hm⟩) hd⟩
  | definition hs => exact ⟨definition, .step hs hm hd⟩

private theorem behind_used (hs : s ∈ operationSchemas settings document) {own : Text} (href : s.ref = some own)
    {envelope : Schema} (he : (documentDefinitions document).get? (Schema.refName own) = some envelope) :
    IsUsed settings document envelope :=
  .definition (.root (List.mem_flatMap.2 ⟨s, hs, Schema.mem_refs_iff.2 (.here href)⟩) he)

theorem isSound (h : HasClosedReferences settings document) (hs : s ∈ operationSchemas settings document) :
    s.IsSound (documentDefinitions document) where
  alone := h.alone s (.operation hs)
  behind_alone _ href _ he := h.alone _ (behind_used hs href he)

theorem reached_of_metFrom (h : HasClosedReferences settings document)
    (hs : s ∈ operationSchemas settings document) (hm : s.MetFrom (documentDefinitions document) ref) :
    ∃ definition, ReachedDefinition settings document (Schema.refName ref) definition := by
  cases hm with
  | mentioned hm => exact h.reached (.operation hs) hm
  | behind href he hm => exact h.reached (behind_used hs href he) hm

end HasClosedReferences

/-! ## Operations -/

theorem OperationParts.mem_schemas {parts : OperationParts} {s : Schema} :
    s ∈ parts.schemas ↔ (∃ fields ∈ parts.parameterSchemas, Schema.ofFields fields = s) ∨
      s ∈ parts.body.map Schema.ofFields ∨ s ∈ parts.response.map Schema.ofFields := by
  simp [schemas]

theorem responseType_comesFrom {definitions : Table Schema} {origins : List Schema} {s : Schema}
    (hs : s ∈ origins) (hsound : s.IsSound definitions) :
    (responseType settings definitions s).ComesFrom settings.displayName definitions origins := by
  unfold responseType
  split
  · exact SignatureType.unwrap_comesFrom hs hsound
  · exact SignatureType.ofSchema_comesFrom hs

/-- Where the imports and the references of an operation come from. -/
structure BuiltOperation.ComesFrom (displayName : Text → Text) (definitions : Table Schema)
    (origins : List Schema) (b : BuiltOperation) : Prop where
  tracked : ∀ s ∈ origins, ∀ ref ∈ s.refs, ref ∈ b.met
  met : ∀ ref ∈ b.met, ∃ s ∈ origins, s.MetFrom definitions ref
  named : ∀ definition ∈ b.operation.typeRefs, ∃ s ∈ origins, ∃ ref, s.MetFrom definitions ref ∧
    Schema.refName ref = definition
  imported : ∀ t ∈ [b.operation.bodyType, b.operation.responseType].filterMap Operation.named?, ∀ n,
    importOf t = some n → ∃ definition ∈ b.operation.typeRefs, importOf (displayName definition) = some n

private theorem importOf_of_typeText {t : SignatureType} {type n : Text}
    {displayName : Text → Text} {definitions : Table Schema} {origins : List Schema}
    (h : t.ComesFrom displayName definitions origins) (ht : t.typeText = some type)
    (hn : importOf type = some n) :
    ∃ definition ∈ t.namedAfter, importOf (displayName definition) = some n := by
  obtain ⟨e, he, rfl⟩ := Option.map_eq_some_iff.1 ht
  exact h.imported e he n hn

private theorem mem_append_new {as bs : List Text} {t : Text} :
    t ∈ as ++ bs.filter (· ∉ as) ↔ t ∈ as ∨ t ∈ bs := by
  by_cases h : t ∈ as <;> simp [h]

theorem buildOperation_comesFrom {definitions : Table Schema} {group : Text} {raw : RawOperation}
    {parts : OperationParts} (hs : ∀ s ∈ parts.schemas, s.IsSound definitions) :
    (buildOperation settings definitions group raw parts).ComesFrom settings.displayName definitions
      parts.schemas := by
  have hbody : ((parts.body.map Schema.ofFields).map (SignatureType.ofSchema settings.displayName)).getD {}
      |>.ComesFrom settings.displayName definitions parts.schemas := by
    cases hb : parts.body.map Schema.ofFields with
    | none => exact SignatureType.nothing_comesFrom
    | some s => exact SignatureType.ofSchema_comesFrom (OperationParts.mem_schemas.2 (.inr (.inl hb)))
  have hreturned : ((parts.response.map Schema.ofFields).map (responseType settings definitions)).getD {}
      |>.ComesFrom settings.displayName definitions parts.schemas := by
    cases hr : parts.response.map Schema.ofFields with
    | none => exact SignatureType.nothing_comesFrom
    | some s =>
      have hmem := OperationParts.mem_schemas.2 (.inr (.inr hr))
      exact responseType_comesFrom hmem (hs s hmem)
  have hrefs (fields : Option Fields) (ref : Text) :
      ref ∈ ((fields.map Schema.ofFields).map Schema.refs).getD [] ↔
        ∃ s ∈ fields.map Schema.ofFields, ref ∈ s.refs := by
    cases fields <;> simp
  refine { tracked := ?tracked, met := ?met, named := ?named, imported := ?imported }
  case tracked =>
    intro s hmem ref href
    simp only [buildOperation, List.mem_append, List.mem_flatMap, hrefs]
    rcases OperationParts.mem_schemas.1 hmem with ⟨fields, hf, rfl⟩ | hb | hr
    · exact .inl (.inl (.inl ⟨fields, hf, href⟩))
    · exact .inl (.inl (.inr ⟨s, hb, href⟩))
    · exact .inl (.inr ⟨s, hr, href⟩)
  case met =>
    intro ref href
    simp only [buildOperation, List.mem_append, List.mem_flatMap, hrefs] at href
    rcases href with ((⟨fields, hf, href⟩ | ⟨s, hb, href⟩) | ⟨s, hr, href⟩) | href
    · exact ⟨_, OperationParts.mem_schemas.2 (.inl ⟨fields, hf, rfl⟩), .mentioned (Schema.mem_refs_iff.1 href)⟩
    · exact ⟨s, OperationParts.mem_schemas.2 (.inr (.inl hb)), .mentioned (Schema.mem_refs_iff.1 href)⟩
    · exact ⟨s, OperationParts.mem_schemas.2 (.inr (.inr hr)), .mentioned (Schema.mem_refs_iff.1 href)⟩
    · exact hreturned.met ref href
  case named =>
    intro definition hd
    rcases mem_append_new.1 hd with hd | hd
    · exact hbody.named definition hd
    · exact hreturned.named definition hd
  case imported =>
    intro t ht n hn
    obtain ⟨type, hmem, hnamed⟩ := List.mem_filterMap.1 ht
    have htype := (Operation.named?_eq_some_iff.1 hnamed).1
    simp only [List.mem_cons, List.not_mem_nil, or_false] at hmem
    rcases hmem with rfl | rfl
    · obtain ⟨definition, hd, hname⟩ := importOf_of_typeText hbody htype hn
      exact ⟨definition, mem_append_new.2 (.inl hd), hname⟩
    · obtain ⟨definition, hd, hname⟩ := importOf_of_typeText hreturned htype hn
      exact ⟨definition, mem_append_new.2 (.inr hd), hname⟩

/-- The operations of a document as they are built. -/
def builtOperations (settings : Settings) (aliases : Aliases) (document : Fields) : List BuiltOperation :=
  (acceptedOperations settings document).map fun raw =>
    buildOperation settings (documentDefinitions document) (aliases.groupOf (firstTag raw.operation)) raw
      ((Dialect.ofDocument document).parts document raw)

theorem ApiModel.exists_group {b : BuiltOperation} (hb : b ∈ builtOperations settings aliases document) :
    ∃ group ∈ (ofDocument settings aliases document).operations, b.operation ∈ group.2 :=
  List.mem_flatMap.1 ((Table.perm_groupBy Operation.group _).mem_iff.2 (List.mem_map_of_mem hb))

theorem ApiModel.perm_allTypes :
    (ofDocument settings aliases document).allTypes.Perm
      (closure settings.displayName (documentDefinitions document)
        ((builtOperations settings aliases document).flatMap BuiltOperation.met)) :=
  Table.perm_groupBy _ _

theorem ApiModel.nodup_allTypes :
    ((ofDocument settings aliases document).allTypes.map NamedType.definition).Nodup :=
  (perm_allTypes.map _).nodup_iff.2 nodup_closure

namespace HasClosedReferences

variable {ref : Text}

theorem comesFrom (h : HasClosedReferences settings document) {raw : RawOperation}
    (hraw : raw ∈ acceptedOperations settings document) (group : Text) :
    let parts := (Dialect.ofDocument document).parts document raw
    (∀ s ∈ parts.schemas, s ∈ operationSchemas settings document) ∧
      (buildOperation settings (documentDefinitions document) group raw parts).ComesFrom settings.displayName
        (documentDefinitions document) parts.schemas := by
  intro parts
  have hmem (s : Schema) (hs : s ∈ parts.schemas) : s ∈ operationSchemas settings document :=
    List.mem_flatMap.2 ⟨raw, hraw, hs⟩
  exact ⟨hmem, buildOperation_comesFrom fun s hs => h.isSound (hmem s hs)⟩

theorem mem_allTypes_iff (h : HasClosedReferences settings document) {t : NamedType} :
    t ∈ (ApiModel.ofDocument settings aliases document).allTypes ↔
      ∃ name s, ReachedDefinition settings document name s ∧ t = namedType settings.displayName name s := by
  rw [ApiModel.perm_allTypes.mem_iff, mem_closure_iff]
  -- an operation also meets what an envelope mentions, which is reached from its schemas by one more step
  have hmet {name : Text} {s : Schema}
      (hs : Reached (documentDefinitions document)
        ((builtOperations settings aliases document).flatMap BuiltOperation.met) name s) :
      ReachedDefinition settings document name s := by
    induction hs with
    | root hr hs =>
      obtain ⟨b, hb, hr⟩ := List.mem_flatMap.1 hr
      obtain ⟨raw, hraw, rfl⟩ := List.mem_map.1 hb
      obtain ⟨hmem, hfrom⟩ := h.comesFrom hraw (aliases.groupOf (firstTag raw.operation))
      obtain ⟨s, hs', hm⟩ := hfrom.met _ hr
      obtain ⟨definition, hd⟩ := h.reached_of_metFrom (hmem s hs') hm
      obtain rfl := Option.some.inj (hd.get?_eq.symm.trans hs)
      exact hd
    | step _ hm ht ih => exact .step ih hm ht
  have htracked : ∀ ref ∈ (operationSchemas settings document).flatMap Schema.refs,
      ref ∈ (builtOperations settings aliases document).flatMap BuiltOperation.met := by
    intro ref href
    obtain ⟨s, hs, href⟩ := List.mem_flatMap.1 href
    obtain ⟨raw, hraw, hs⟩ := List.mem_flatMap.1 hs
    obtain ⟨-, hfrom⟩ := h.comesFrom hraw (aliases.groupOf (firstTag raw.operation))
    exact List.mem_flatMap.2 ⟨_, List.mem_map_of_mem hraw, hfrom.tracked s hs ref href⟩
  constructor
  · rintro ⟨name, s, hs, rfl⟩
    exact ⟨name, s, hmet hs, rfl⟩
  · rintro ⟨name, s, hs, rfl⟩
    exact ⟨name, s, hs.mono htracked, rfl⟩

theorem mem_allTypes (h : HasClosedReferences settings document) (aliases : Aliases) {name : Text} {s : Schema}
    (hs : ReachedDefinition settings document name s) :
    namedType settings.displayName name s ∈ (ApiModel.ofDocument settings aliases document).allTypes :=
  h.mem_allTypes_iff.2 ⟨name, s, hs, rfl⟩

end HasClosedReferences

/-! ## Types files -/

theorem mem_entries_of_mem {types : List NamedType} {e : Text × NamedType}
    (h : e ∈ Table.ofEntries (types.map fun t => (t.name, t))) : e.2 ∈ types ∧ e.1 = e.2.name := by
  rw [Table.ofEntries_eq_putAll] at h
  obtain ⟨t, ht, rfl⟩ := List.mem_map.1 ((Table.mem_of_mem_putAll h).resolve_right List.not_mem_nil)
  exact ⟨ht, rfl⟩

theorem mem_of_mem_uniqueByName {types : List NamedType} {t : NamedType} (h : t ∈ uniqueByName types) :
    t ∈ types := by
  obtain ⟨e, he, rfl⟩ := List.mem_map.1 h
  exact (mem_entries_of_mem he).1

theorem exists_mem_uniqueByName {types : List NamedType} {t : NamedType} (h : t ∈ types) :
    ∃ u ∈ uniqueByName types, u.name = t.name := by
  have hkey : t.name ∈ (Table.ofEntries (types.map fun t => (t.name, t))).keys := by
    rw [Table.keys_ofEntries, mem_firstOccurrences, List.map_map]
    exact List.mem_map_of_mem h
  obtain ⟨e, he, hname⟩ := List.mem_map.1 hkey
  exact ⟨e.2, List.mem_map_of_mem he, (mem_entries_of_mem he).2.symm.trans hname⟩

theorem name_mem_declared {types : List NamedType} {operations : List Operation} {t : NamedType}
    (h : t ∈ types) :
    t.name ∈ (typesFileDeclarations settings types operations).map Declaration.name := by
  obtain ⟨u, hu, hname⟩ := exists_mem_uniqueByName h
  refine List.mem_map.2 ⟨u.schema.declare settings u.name, List.mem_append_left _ (List.mem_map_of_mem hu), ?_⟩
  rw [(Schema.declaredAs_declare settings u.name u.schema).name_eq, hname]

theorem paramsDeclaration?_eq_some_iff {o : Operation} {d : Declaration} :
    o.paramsDeclaration? settings = some d ↔
      ∃ name, o.paramsType = some name ∧ name ≠ [] ∧ o.queryParams ≠ [] ∧
        paramsDeclaration settings name o.queryParams = d := by
  cases h : o.paramsType with
  | none => simp [Operation.paramsDeclaration?_of_none h]
  | some name =>
    simp [Operation.paramsDeclaration?_of_some h, and_assoc]

theorem paramsType_mem_declared {types : List NamedType} {operations : List Operation} {o : Operation}
    (ho : o ∈ operations) {name : Text} (hname : o.paramsType = some name) (hne : name ≠ [])
    (hq : o.queryParams ≠ []) :
    name ∈ (typesFileDeclarations settings types operations).map Declaration.name := by
  have hd : o.paramsDeclaration? settings = some (paramsDeclaration settings name o.queryParams) :=
    paramsDeclaration?_eq_some_iff.2 ⟨name, hname, hne, hq, rfl⟩
  exact List.mem_map.2 ⟨_, List.mem_append_right _ (List.mem_filterMap.2 ⟨o, ho, hd⟩), rfl⟩

private theorem Parameter.not_mentions_type {p : Parameter} {n : Text} : ¬p.type.Mentions n := by
  intro h
  unfold Parameter.type at h
  split at h
  · cases h
  split at h
  · cases h
  split at h
  · split at h
    · cases h with
      | array h => cases h
    · split at h
      · cases h with
        | array h =>
          cases h with
          | grouped h => cases h
      · cases h with
        | array h => cases h
  · cases h

theorem not_mentions_paramsDeclaration? {o : Operation} {d : Declaration} {n : Text}
    (hd : o.paramsDeclaration? settings = some d) : ¬d.Mentions n := by
  intro h
  obtain ⟨name, -, -, -, rfl⟩ := paramsDeclaration?_eq_some_iff.1 hd
  cases h with
  | parent h => cases h
  | member hm h =>
    obtain ⟨p, -, rfl⟩ := List.mem_map.1 hm
    exact p.not_mentions_type h

/-! ## Groups -/

namespace HasClosedReferences

variable {operations : List Operation} {ref : Text}

theorem mem_groupTypes_of_mentioned (h : HasClosedReferences settings document) {t : NamedType}
    (ht : t ∈ groupTypes operations (ApiModel.ofDocument settings aliases document).allTypes)
    (hm : t.schema.Mentions ref) :
    ∃ u ∈ groupTypes operations (ApiModel.ofDocument settings aliases document).allTypes,
      u.name = settings.displayName (Schema.refName ref) := by
  have hreached := (mem_groupTypes_iff ApiModel.nodup_allTypes).1 ht
  obtain ⟨name, s, hs, rfl⟩ := h.mem_allTypes_iff.1 hreached.mem
  obtain ⟨definition, hd⟩ := h.reached (.definition hs) hm
  have hu := h.mem_allTypes aliases hd
  exact ⟨_, (mem_groupTypes_iff ApiModel.nodup_allTypes).2 (.step hreached hm hu rfl), rfl⟩

theorem mem_groupTypes_of_typeRef (h : HasClosedReferences settings document) (aliases : Aliases)
    {o : Operation} (ho : o ∈ operations) {origins : List Schema}
    (horigins : ∀ s ∈ origins, s ∈ operationSchemas settings document) {definition : Text}
    (hd : definition ∈ o.typeRefs)
    (hfrom : ∃ s ∈ origins, ∃ ref, s.MetFrom (documentDefinitions document) ref ∧
      Schema.refName ref = definition) :
    isIdentifier (settings.displayName definition) = true ∧
      ∃ t ∈ groupTypes operations (ApiModel.ofDocument settings aliases document).allTypes,
        t.name = settings.displayName definition := by
  obtain ⟨s, hs, ref, hm, rfl⟩ := hfrom
  obtain ⟨target, ht⟩ := h.reached_of_metFrom (horigins s hs) hm
  have hmem := h.mem_allTypes aliases ht
  have hroot := List.mem_flatMap.2 ⟨o, ho, hd⟩
  exact ⟨h.named _ target ht, _, (mem_groupTypes_iff ApiModel.nodup_allTypes).2 (.root hmem hroot), rfl⟩

end HasClosedReferences

private theorem queryParams_ne_nil {definitions : Table Schema} {group : Text} {raw : RawOperation}
    {parts : OperationParts} {name : Text}
    (h : (buildOperation settings definitions group raw parts).operation.paramsType = some name) :
    (buildOperation settings definitions group raw parts).operation.queryParams ≠ [] := by
  unfold buildOperation at h ⊢
  dsimp only at h ⊢
  split at h
  · cases h
  · next hne => simpa using hne

namespace HasClosedReferences

variable {operations : List Operation} {group : Text × List Operation} {name : Text}

theorem imported_mem_declared (h : HasClosedReferences settings document)
    (hg : group ∈ (ApiModel.ofDocument settings aliases document).operations)
    (hname : name ∈ importedTypes group.2) :
    name ∈ (typesFileDeclarations settings
      (groupTypes group.2 (ApiModel.ofDocument settings aliases document).allTypes) group.2).map
        Declaration.name := by
  obtain ⟨o, ho, type, ht, himport⟩ := mem_importedTypes.1 hname
  obtain ⟨b, hb, rfl⟩ := List.mem_map.1 (Table.mem_of_mem_groupBy hg o ho).1
  obtain ⟨raw, hraw, rfl⟩ := List.mem_map.1 hb
  obtain ⟨horigins, hfrom⟩ := h.comesFrom hraw (aliases.groupOf (firstTag raw.operation))
  obtain ⟨type?, hmem, hnamed⟩ := List.mem_filterMap.1 ht
  rcases List.mem_cons.1 hmem with rfl | hmem
  · -- the interface of the query parameters
    obtain ⟨htype, hne⟩ := Operation.named?_eq_some_iff.1 hnamed
    obtain rfl := eq_of_importOf_identifier ((ApiModel.isBuilt hg ho).isIdentifier_paramsType htype) himport
    exact paramsType_mem_declared ho htype hne (queryParams_ne_nil htype)
  · -- the type of the body or of the response
    have hnamed := List.mem_filterMap.2 ⟨type?, hmem, hnamed⟩
    obtain ⟨definition, hd, hname⟩ := hfrom.imported type hnamed name himport
    obtain ⟨hidentifier, t, ht, heq⟩ :=
      h.mem_groupTypes_of_typeRef aliases ho horigins hd (hfrom.named definition hd)
    obtain rfl := eq_of_importOf_identifier hidentifier hname
    exact heq ▸ name_mem_declared ht

theorem mentioned_mem_declared (h : HasClosedReferences settings document) {d : Declaration}
    (hd : d ∈ typesFileDeclarations settings
      (groupTypes operations (ApiModel.ofDocument settings aliases document).allTypes) operations)
    (hm : d.Mentions name) :
    name ∈ (typesFileDeclarations settings
      (groupTypes operations (ApiModel.ofDocument settings aliases document).allTypes) operations).map
        Declaration.name := by
  rcases List.mem_append.1 hd with hd | hd
  · obtain ⟨t, ht, rfl⟩ := List.mem_map.1 hd
    have ht := mem_of_mem_uniqueByName ht
    obtain ⟨_, s, hs, rfl⟩ := h.mem_allTypes_iff.1 ((mem_groupTypes_iff ApiModel.nodup_allTypes).1 ht).mem
    have halone : s.RefsAlone := h.alone s (.definition hs)
    obtain ⟨ref, href, rfl⟩ := (Schema.declaredAs_declare settings _ s).names halone hm
    obtain ⟨u, hu, hname⟩ := h.mem_groupTypes_of_mentioned ht href
    exact hname ▸ name_mem_declared hu
  · obtain ⟨o, -, hparams⟩ := List.mem_filterMap.1 hd
    exact absurd hm (not_mentions_paramsDeclaration? hparams)

end HasClosedReferences

end ClientGen
