import ClientGen.Schema.Type
import ClientGen.TypeScript.Declaration
/-!
# The declaration of a schema

A composition of references alone becomes a name for their intersection; other compositions and
objects become interfaces, and all else a name for its type.
-/

namespace ClientGen.Schema

def comment (s : Schema) : Option Text :=
  (s.description.filter (!Text.allBlank ·)).map commentText

/-- The members of the properties that the settings do not exclude. -/
def declaredMembers (settings : Settings) (required : List Text) (properties : List (Text × Schema)) :
    List DeclaredMember :=
  (properties.filter fun (name, _) => !settings.excludes name).map fun (name, s) =>
    ⟨s.comment, ⟨name, name ∉ required, s.type settings⟩⟩

def indexType (settings : Settings) (s : Schema) : Option TypeExpr :=
  if s.isOpen then some .unknown else s.additional.map (·.type settings)

def declare (settings : Settings) (name : Text) (s : Schema) : Declaration :=
  if !s.allOf.isEmpty then
    let m := s.merged settings.displayName
    if !m.parents.isEmpty && m.properties.isEmpty then
      .typeAlias s.comment name (.intersection (m.parents.map .named))
    else
      .interface s.comment name m.parents (declaredMembers settings m.required m.properties) none
  else if !s.enum.isEmpty then .typeAlias s.comment name (.literals s.enum)
  else if s.isObject then
    .interface s.comment name [] (declaredMembers settings s.required s.properties)
      (s.indexType settings)
  else .typeAlias s.comment name (s.type settings)

end ClientGen.Schema
