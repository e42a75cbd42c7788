import ClientGen.Schema.Basic
/-!
# Operations

An operation is one method of one path. It is what a request function is made of.
-/

namespace ClientGen

/-- A parameter of a path or a query. -/
structure Parameter where
  name : Text := []
  /-- Where the parameter stands: `path` or `query`. -/
  location : Text := "query"
  isRequired : Bool := false
  tag : Option Text := none
  /-- The schema of the elements of an array, as documented. -/
  items : Option Value := none
  enum : List Value := []
  description : Option Text := none
deriving Repr

/-- One method of one path. -/
structure Operation where
  path : Text := "/"
  /-- The path without the prefixes that are left out. -/
  cleanPath : Text := "/"
  method : Text := "get"
  group : Text := "g"
  callName : Text := "call"
  summary : Option Text := none
  bodyType : Option Text := none
  paramsType : Option Text := none
  responseType : Option Text := none
  pathParams : List Parameter := []
  queryParams : List Parameter := []
  /-- The schema of the request body, as documented. -/
  bodySchema : Option Fields := none
  /-- The schema of the response, as documented. -/
  responseSchema : Option Fields := none
  /-- The definitions that the types of the body and the response are named after. -/
  typeRefs : List Text := []
deriving Repr

/-- A definition with the name and the module of its declaration. -/
structure NamedType where
  definition : Text
  name : Text
  module : Text
  schema : Schema

end ClientGen
