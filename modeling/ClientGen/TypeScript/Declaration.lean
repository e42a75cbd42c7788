import ClientGen.TypeScript.TypeExpr
/-!
# Declarations

The exported declarations of a types file, as trees and as text: one line per member, and a comment of
one line before what has a description.
-/

namespace ClientGen

/-- A member of an interface with its comment. -/
structure DeclaredMember where
  comment : Option Text
  member : Member TypeExpr

/-- A declaration of a types file. -/
inductive Declaration where
  /-- An interface: its comment, its name, the interfaces it extends, its members and the type of the
  values under other keys. -/
  | interface (comment : Option Text) (name : Text) (parents : List Text)
    (members : List DeclaredMember) (index : Option TypeExpr)
  | typeAlias (comment : Option Text) (name : Text) (type : TypeExpr)

/-- A text on one line that does not end the comment it stands in. -/
def commentText (t : Text) : Text := Text.collapse (Text.replace "*/" "* /" t)

def commentLine (margin : Text) (comment : Option Text) : List Text :=
  match comment with
  | some t => [margin ++ "/** " ++ t ++ " */"]
  | none => []

namespace DeclaredMember

def lines (m : DeclaredMember) : List Text :=
  let line := TypeExpr.renderMember m.member.name m.member.isOptional m.member.type.render
  commentLine "  " m.comment ++ ["  " ++ line]

end DeclaredMember

namespace Declaration

def name : Declaration → Text
  | .interface _ n _ _ _ => n
  | .typeAlias _ n _ => n

/-- The clause that names the interfaces that are extended. -/
def heritage (parents : List Text) : Text :=
  if parents.isEmpty then [] else " extends " ++ Text.join ", " parents

/-- The lines of the type of the values under other keys. -/
def indexLines (index : Option TypeExpr) : List Text :=
  match index with
  | some type => ["  [key: string]: " ++ type.render]
  | none => []

def lines : Declaration → List Text
  | .interface comment name parents members index =>
    commentLine [] comment ++
      ["export interface " ++ name ++ heritage parents ++ " \x7b"] ++
      members.flatMap DeclaredMember.lines ++ indexLines index ++ [['\x7d']]
  | .typeAlias comment name type =>
    commentLine [] comment ++ ["export type " ++ name ++ " = " ++ type.render]

def render (d : Declaration) : Text := Text.join "\n" d.lines

end Declaration

end ClientGen
