import ClientGen.Settings.Basic
/-!
# Reading settings

Settings are an object with a key per setting, in camel case or with underscores. All faults of an
object are reported: those of the known settings in their order, then the unknown keys.
-/

namespace ClientGen.Settings

/-- What is wrong at a place in the settings. -/
inductive Fault where
  | notText
  | emptyText
  | unknownStyle
  | notList
  | notObject
  /-- There is no such setting, or it is already given under its other key. -/
  | unknownKey
deriving DecidableEq, Repr

/-- A fault with its place: the key, and the index or the inner key if the fault is inside. -/
structure Finding where
  place : List Text
  fault : Fault
deriving DecidableEq, Repr

/-- What is read of a part of the settings, and the faults found there. -/
structure Checked (α : Type) where
  /-- The value, or the default if there are faults. -/
  value : α
  findings : List Finding := []

/-- The two keys of a setting. -/
structure Key where
  camel : Text
  snake : Text

def Key.usedIn (key : Key) (fields : Fields) : Option Text :=
  if (fields.get? key.camel).isSome then some key.camel
  else if (fields.get? key.snake).isSome then some key.snake
  else none

/-- A setting read by `check`, or its default when it is not given. -/
def Key.check {α : Type} (key : Key) (fields : Fields) (default : α)
    (check : (place : List Text) → (default : α) → Value → Checked α) : Checked α :=
  match (key.usedIn fields).bind fields.get? with
  | some v => check [key.camel] default v
  | none => ⟨default, []⟩

def checkText (place : List Text) (default : Text) (v : Value) : Checked Text :=
  match v.text? with
  | some t => ⟨t, []⟩
  | none => ⟨default, [⟨place, .notText⟩]⟩

def checkNonempty (place : List Text) (default : Text) (v : Value) : Checked Text :=
  match v.text? with
  | some t => if t = [] then ⟨default, [⟨place, .emptyText⟩]⟩ else ⟨t, []⟩
  | none => ⟨default, [⟨place, .notText⟩]⟩

def checkOptional (place : List Text) (default : Option Text) (v : Value) : Checked (Option Text) :=
  if v.isNull then ⟨none, []⟩
  else
    match v.text? with
    | some t => ⟨some t, []⟩
    | none => ⟨default, [⟨place, .notText⟩]⟩

def checkStyle (place : List Text) (default : RequestStyle) (v : Value) : Checked RequestStyle :=
  match v.text?.bind RequestStyle.ofName? with
  | some style => ⟨style, []⟩
  | none => ⟨default, [⟨place, .unknownStyle⟩]⟩

def checkTexts (place : List Text) (default : List Text) (v : Value) : Checked (List Text) :=
  match v.items? with
  | none => ⟨default, [⟨place, .notList⟩]⟩
  | some vs =>
    let parts := vs.zipIdx.map fun (v, i) => checkText (place ++ [Text.ofNat i]) [] v
    ⟨parts.map Checked.value, parts.flatMap Checked.findings⟩

def checkTable (place : List Text) (default : Table Text) (v : Value) : Checked (Table Text) :=
  match v.fields? with
  | none => ⟨default, [⟨place, .notObject⟩]⟩
  | some fields =>
    let entries := fields.filterMap fun (k, v) =>
      match k with
      | .text name => some (name, checkText (place ++ [name]) [] v)
      | _ => none
    ⟨entries.map fun (name, c) => (name, c.value), entries.flatMap fun (_, c) => c.findings⟩

namespace Key

/-- The keys of a setting from the one with underscores. -/
def of (snake : Text) : Key := ⟨Naming.camelCase snake, snake⟩

def input : Key := of "input"

def output : Key := of "output"

def style : Key := of "request_style"

def client : Key := of "request_client"

def clientImport : Key := of "request_import"

def pathPrefixes : Key := of "path_prefix_filter"

def typeSuffixes : Key := of "type_name_suffix_filter"

def excludedFields : Key := of "exclude_fields"

def unwrapField : Key := of "unwrap_response_field"

def tagMapping : Key := of "tag_mapping"

def includedTags : Key := of "include_tags"

def excludedTags : Key := of "exclude_tags"

end Key

/-- The keys of all settings, in order. -/
def knownKeys : List Key :=
  [.input, .output, .style, .client, .clientImport, .pathPrefixes, .typeSuffixes, .excludedFields,
    .unwrapField, .tagMapping, .includedTags, .excludedTags]

/-- The keys of an object under which no setting is read. -/
def unknownKeys (fields : Fields) : List Finding :=
  let used := knownKeys.filterMap (·.usedIn fields)
  fields.filterMap fun (k, _) =>
    match k with
    | .text name => if name ∈ used then none else some ⟨[name], .unknownKey⟩
    | _ => none

/-- The settings of an object, or all its faults. -/
def ofFields (fields : Fields) : Except (List Finding) Settings :=
  let base : Settings := {}
  let input := Key.input.check fields base.input checkNonempty
  let output := Key.output.check fields base.output checkNonempty
  let style := Key.style.check fields base.requestStyle checkStyle
  let client := Key.client.check fields base.requestClient checkNonempty
  let clientImport := Key.clientImport.check fields base.requestImport checkNonempty
  let prefixes := Key.pathPrefixes.check fields base.pathPrefixes checkTexts
  let suffixes := Key.typeSuffixes.check fields base.typeSuffixes checkTexts
  let excluded := Key.excludedFields.check fields base.excludedFields checkTexts
  let unwrap := Key.unwrapField.check fields base.unwrapField checkOptional
  let mapping := Key.tagMapping.check fields base.tagMapping checkTable
  let included := Key.includedTags.check fields base.includedTags checkTexts
  let dropped := Key.excludedTags.check fields base.excludedTags checkTexts
  let findings :=
    input.findings ++ output.findings ++ style.findings ++ client.findings ++
      clientImport.findings ++ prefixes.findings ++ suffixes.findings ++ excluded.findings ++
      unwrap.findings ++ mapping.findings ++ included.findings ++ dropped.findings ++ unknownKeys fields
  if findings = [] then
    .ok
      { input := input.value, output := output.value, requestStyle := style.value
        requestClient := client.value, requestImport := clientImport.value
        pathPrefixes := Naming.longestFirst prefixes.value, typeSuffixes := suffixes.value
        excludedFields := excluded.value, unwrapField := unwrap.value, tagMapping := mapping.value
        includedTags := included.value, excludedTags := dropped.value }
  else .error findings

def textList (ts : List Text) : Value := .list (ts.map Value.text)

def toFields (s : Settings) : Fields :=
  let values : List (Key × Value) :=
    [(.input, .text s.input), (.output, .text s.output), (.style, .text s.requestStyle.name),
      (.client, .text s.requestClient), (.clientImport, .text s.requestImport),
      (.pathPrefixes, textList s.pathPrefixes), (.typeSuffixes, textList s.typeSuffixes),
      (.excludedFields, textList s.excludedFields),
      (.unwrapField, (s.unwrapField.map Value.text).getD .null),
      (.tagMapping, .object (s.tagMapping.map fun (tag, name) => (.text tag, .text name))),
      (.includedTags, textList s.includedTags), (.excludedTags, textList s.excludedTags)]
  values.map fun (key, v) => (.text key.camel, v)

/-- The default settings that a new project is given: all up to the type suffixes. -/
def initialFields : Fields := (toFields {}).take 7

end ClientGen.Settings
