import ClientGen.Schema.Type
/-!
# Types in signatures

A body or a response gets a name in a signature when its schema refers to a definition, itself or by the
elements of an array. A response may first be unwrapped: the schema of one property takes its place.
-/

namespace ClientGen

/-- What is known of a type in a signature. -/
structure SignatureType where
  type : Option TypeExpr := none
  /-- The definitions that the type is named after. -/
  namedAfter : List Text := []
  /-- The references that were met on the way. -/
  met : List Text := []

namespace SignatureType

/-- The type of a schema that is not unwrapped. -/
def ofSchema (displayName : Text → Text) (s : Schema) : SignatureType :=
  match s.reference? displayName with
  | some r => { type := some r.type, namedAfter := [r.definition] }
  | none => {}

mutual

/-- The reference of the innermost elements of nested arrays. -/
def innermostRef : Schema → Option Text
  | ⟨ref, _, _, tag, items, _, _, _, _, _, _⟩ =>
    if tag = some "array".toList then innermostRefOfOption items else ref
termination_by structural s => s

/-- The reference of the innermost elements, if there are any. -/
def innermostRefOfOption : Option Schema → Option Text
  | none => none
  | some s => innermostRef s
termination_by structural s => s

end

/-- The type of the property that holds the payload. -/
def ofPayload (displayName : Text → Text) (s : Schema) : SignatureType :=
  match s.reference? displayName with
  | some r => { type := some r.type, namedAfter := [r.definition], met := s.refs }
  | none =>
    { type := some (s.plainType displayName)
      namedAfter := ((innermostRef s).map Schema.refName).toList, met := s.refs }

/-- The type of a response whose payload stands in a property. -/
def unwrap (displayName : Text → Text) (definitions : Table Schema) (field : Text) (s : Schema) :
    SignatureType :=
  if !s.allOf.isEmpty then
    match s.allOf.findSome? (·.property? field) with
    | some payload => ofPayload displayName payload
    | none => {}
  else
    match s.ref with
    | some ref =>
      let definition := Schema.refName ref
      match definitions.get? definition with
      | none => {}
      | some envelope =>
        match envelope.property? field with
        | some payload => ofPayload displayName payload
        | none => { type := some (.named (displayName definition)), namedAfter := [definition] }
    | none =>
      match s.property? field with
      | some payload => ofPayload displayName payload
      | none => ofSchema displayName s

def typeText (t : SignatureType) : Option Text := t.type.map TypeExpr.render

end SignatureType

end ClientGen
