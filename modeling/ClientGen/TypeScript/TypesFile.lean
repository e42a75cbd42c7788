import ClientGen.Api.Operation
import ClientGen.Schema.Declare
/-!
# Types files

The types file of a group declares the named types of the group and, for every operation with query
parameters, the interface of these.
-/

namespace ClientGen

def Parameter.type (p : Parameter) : TypeExpr :=
  if !p.enum.isEmpty then .literals p.enum
  else
    match Keyword.ofTag? p.tag with
    | some k => .keyword k
    | none =>
      if p.tag = some "array".toList then
        match p.items.bind Schema.ofObject? with
        | none => .array .unknown
        | some items =>
          if !items.enum.isEmpty then .array (.grouped (.literals items.enum))
          else .array (.keyword ((Keyword.ofTag? items.tag).getD .unknown))
      else .unknown

/-- Whether a parameter has a member in the interface of the query parameters. -/
def Parameter.isDeclared (settings : Settings) (p : Parameter) : Bool :=
  p.name ≠ [] && p.name ≠ ['-'] && !settings.excludes p.name

def paramsDeclaration (settings : Settings) (name : Text) (parameters : List Parameter) : Declaration :=
  let members := (parameters.filter (·.isDeclared settings)).map fun p =>
    ⟨(p.description.filter (· ≠ [])).map commentText, ⟨p.name, !p.isRequired, p.type⟩⟩
  .interface none name [] members none

/-- The types with one of each name: the last one, in the place of the first. -/
def uniqueByName (types : List NamedType) : List NamedType :=
  (Table.ofEntries (types.map fun t => (t.name, t))).map Prod.snd

/-- The interface of the query parameters of an operation, if it has any. -/
def Operation.paramsDeclaration? (settings : Settings) (o : Operation) : Option Declaration :=
  match o.paramsType.filter (· ≠ []) with
  | some name => if o.queryParams.isEmpty then none else paramsDeclaration settings name o.queryParams
  | none => none

def typesFileDeclarations (settings : Settings) (types : List NamedType) (operations : List Operation) :
    List Declaration :=
  (uniqueByName types).map (fun t => t.schema.declare settings t.name) ++
    operations.filterMap (·.paramsDeclaration? settings)

def typesFileHeader : Text :=
  "/**\n * This file is generated by swagger-typegen. Do not edit it by hand.\n */\n"

def renderDeclarations (declarations : List Declaration) : Text :=
  Text.join "\n" (typesFileHeader :: declarations.flatMap fun d => [d.render, []])

def renderTypesFile (settings : Settings) (types : List NamedType) (operations : List Operation) : Text :=
  renderDeclarations (typesFileDeclarations settings types operations)

end ClientGen
