import ClientGen.Document.Value
import ClientGen.Naming
/-!
# Schemas

A schema is the part of an object that describes a type. The object may hold anything else; parts
of the wrong kind are passed over.
-/

namespace ClientGen

/-- What an object says about a type. -/
structure Schema where
  ref : Option Text
  allOf : List Schema
  enum : List Value
  tag : Option Text
  items : Option Schema
  /-- Whether properties are spoken of at all. -/
  hasProperties : Bool
  properties : List (Text × Schema)
  required : List Text
  /-- The schema of the values under other keys. -/
  additional : Option Schema
  /-- Whether any value may stand under other keys. -/
  isOpen : Bool
  description : Option Text

namespace Schema

def empty : Schema :=
  ⟨none, [], [], none, none, false, [], [], none, false, none⟩

/-- The texts of a list; other members are passed over. -/
def textsOf (v : Value) : List Text := (v.items?.getD []).filterMap Value.text?

mutual

def ofFields : List (Scalar × Value) → Schema
  | [] => empty
  | (k, v) :: rest =>
    let s := ofFields rest
    if k = .text "$ref" then { s with ref := v.nonemptyText? }
    else if k = .text "allOf" then { s with allOf := ofMembers v }
    else if k = .text "enum" then { s with enum := v.items?.getD [] }
    else if k = .text "type" then { s with tag := v.text? }
    else if k = .text "items" then { s with items := ofObject? v }
    else if k = .text "properties" then { s with hasProperties := true, properties := ofEntries v }
    else if k = .text "required" then { s with required := textsOf v }
    else if k = .text "additionalProperties" then
      { s with additional := ofObject? v, isOpen := v matches .scalar (.bool true) }
    else if k = .text "description" then { s with description := v.text? }
    else s
termination_by structural fs => fs

def ofObject? : Value → Option Schema
  | .object fs => some (ofFields fs)
  | _ => none
termination_by structural v => v

def ofMembers : Value → List Schema
  | .list vs => ofAll vs
  | _ => []
termination_by structural v => v

def ofAll : List Value → List Schema
  | [] => []
  | v :: vs =>
    match ofObject? v with
    | some s => s :: ofAll vs
    | none => ofAll vs
termination_by structural vs => vs

/-- The schemas of the objects under the texts of an object. -/
def ofEntries : Value → List (Text × Schema)
  | .object fs => ofNamed fs
  | _ => []
termination_by structural v => v

def ofNamed : List (Scalar × Value) → List (Text × Schema)
  | [] => []
  | (k, v) :: rest =>
    match k, ofObject? v with
    | .text name, some s => (name, s) :: ofNamed rest
    | _, _ => ofNamed rest
termination_by structural fs => fs

end

def isTagged (s : Schema) (tag : Text) : Bool := s.tag = some tag

def isObject (s : Schema) : Bool := s.isTagged "object" || s.hasProperties

def property? (s : Schema) (name : Text) : Option Schema := s.properties.lookup name

def refPrefixes : List Text :=
  ["#/components/schemas/".toList, "#/definitions/".toList]

/-- The name of the definition that a reference leads to. -/
def refName (ref : Text) : Text := (refPrefixes.findSome? (Text.afterStart? · ref)).getD ref

mutual

/-- The references of a schema in order. Behind a reference nothing is looked at. -/
def refs : Schema → List Text
  | ⟨some ref, _, _, _, _, _, _, _, _, _, _⟩ => [ref]
  | ⟨none, allOf, _, _, items, _, properties, _, additional, _, _⟩ =>
    refsOfProperties properties ++ refsOfOption items ++ refsOfAll allOf ++ refsOfOption additional
termination_by structural s => s

/-- The references of a schema, if there is one. -/
def refsOfOption : Option Schema → List Text
  | none => []
  | some s => refs s
termination_by structural s => s

def refsOfAll : List Schema → List Text
  | [] => []
  | s :: ss => refs s ++ refsOfAll ss
termination_by structural ss => ss

def refsOfProperties : List (Text × Schema) → List Text
  | [] => []
  | (_, s) :: rest => refs s ++ refsOfProperties rest
termination_by structural ps => ps

end

end Schema

end ClientGen
