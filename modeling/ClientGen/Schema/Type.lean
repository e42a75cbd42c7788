import ClientGen.Schema.Basic
import ClientGen.Settings.Basic
import ClientGen.TypeScript.TypeExpr
/-!
# The type of a schema

`Schema.type` is the full type. `Schema.plainType` looks at references, scalars and arrays only, and
`Schema.reference?` at references and arrays of references; signatures are made of these two.
-/

namespace ClientGen.Schema

mutual

/-- The type that a schema describes, under the settings. -/
def type (settings : Settings) : Schema → TypeExpr
  | ⟨some ref, _, _, _, _, _, _, _, _, _, _⟩ => .named (settings.displayName (refName ref))
  | ⟨none, allOf, enum, tag, items, hasProperties, properties, required, additional, _, _⟩ =>
    if !allOf.isEmpty then .intersection (typeOfAll settings allOf)
    else if !enum.isEmpty then .literals enum
    else
      match Keyword.ofTag? tag with
      | some k => .keyword k
      | none =>
        if tag = some "array".toList then
          .array ((typeOfOption settings items).getD .unknown)
        else if tag = some "object".toList || hasProperties then
          if !properties.isEmpty then
            match typeOfMembers settings required properties with
            | [] => .record .unknown
            | members => .object members
          else .record ((typeOfOption settings additional).getD .unknown)
        else .unknown
termination_by structural s => s

/-- The type of a schema, if there is one. -/
def typeOfOption (settings : Settings) : Option Schema → Option TypeExpr
  | none => none
  | some s => some (type settings s)
termination_by structural s => s

def typeOfAll (settings : Settings) : List Schema → List TypeExpr
  | [] => []
  | s :: ss => type settings s :: typeOfAll settings ss
termination_by structural ss => ss

/-- The members of the properties that the settings do not exclude. -/
def typeOfMembers (settings : Settings) (required : List Text) :
    List (Text × Schema) → List (Member TypeExpr)
  | [] => []
  | (name, s) :: rest =>
    if settings.excludes name then typeOfMembers settings required rest
    else ⟨name, name ∉ required, type settings s⟩ :: typeOfMembers settings required rest
termination_by structural ps => ps

end

mutual

/-- The type of a schema by its reference, its scalar kind and the elements of its arrays alone. -/
def plainType (displayName : Text → Text) : Schema → TypeExpr
  | ⟨some ref, _, _, _, _, _, _, _, _, _, _⟩ => .named (displayName (refName ref))
  | ⟨none, _, _, tag, items, _, _, _, _, _, _⟩ =>
    match Keyword.ofTag? tag with
    | some k => .keyword k
    | none =>
      if tag = some "array".toList then .array ((plainTypeOfOption displayName items).getD .unknown)
      else if tag = some "object".toList then .record .unknown
      else .unknown
termination_by structural s => s

/-- The plain type of a schema, if there is one. -/
def plainTypeOfOption (displayName : Text → Text) : Option Schema → Option TypeExpr
  | none => none
  | some s => some (plainType displayName s)
termination_by structural s => s

end

/-- A type named in a signature, with the definition it is named after. -/
structure Reference where
  type : TypeExpr
  definition : Text

/-- The definition that a schema refers to, itself or by the elements of an array. -/
def reference? (displayName : Text → Text) (s : Schema) : Option Reference :=
  match s.ref with
  | some ref => some ⟨.named (displayName (refName ref)), refName ref⟩
  | none =>
    if s.isTagged "array" then
      (s.items.bind ref).map fun r => ⟨.array (.named (displayName (refName r))), refName r⟩
    else none

/-- What a composition amounts to: the definitions it extends and the properties of its own. -/
structure Merged where
  /-- The names of the definitions, in order. -/
  parents : List Text
  /-- The properties; a later one takes the place of an earlier one. -/
  properties : Table Schema
  required : List Text

/-- The merged composition with the properties of a member that is not a reference. -/
def Merged.addProperties (m : Merged) (s : Schema) : Merged where
  parents := m.parents
  properties := s.properties.foldl (fun t (name, p) => Table.put name p t) m.properties
  required := m.required ++ s.required

/-- The composition of a schema, its own properties last. -/
def merged (displayName : Text → Text) (s : Schema) : Merged :=
  let step (m : Merged) (member : Schema) : Merged :=
    match member.ref with
    | some ref => { m with parents := m.parents ++ [displayName (refName ref)] }
    | none => m.addProperties member
  (s.allOf.foldl step ⟨[], [], []⟩).addProperties s

end ClientGen.Schema
