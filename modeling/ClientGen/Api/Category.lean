import ClientGen.Document.Display
import ClientGen.Naming
import ClientGen.Text.Table
/-!
# Categories

The first tag of an operation is its category. A table of aliases gives every category the name that its
group directory is made from.
-/

namespace ClientGen

/-- The category of operations without a tag. -/
def defaultTag : Text := "default"

def firstTag (operation : Fields) : Text :=
  match (operation.get? "tags").bind Value.items? with
  | some (tag :: _) => (tag.nonemptyText?).getD defaultTag
  | _ => defaultTag

/-- An operation of a document before it is looked into. -/
structure RawOperation where
  path : Text
  item : Fields
  method : Text
  operation : Fields

/-- The operations under a path, in the order of the methods. -/
def operationsOfItem (path : Text) (item : Fields) : List RawOperation :=
  Naming.httpMethods.filterMap fun method =>
    ((item.get? method).bind Value.fields?).map fun operation => ⟨path, item, method, operation⟩

/-- The paths of a document that have an object. -/
def pathItems (document : Fields) : List (Scalar × Fields) :=
  (((document.get? "paths").bind Value.fields?).getD []).filterMap fun (path, item) =>
    item.fields?.map (path, ·)

/-- The operations of a document, path by path. -/
def rawOperations (document : Fields) : List RawOperation :=
  (pathItems document).flatMap fun (path, item) =>
    match path with
    | .text t => operationsOfItem t item
    | _ => []

/-- The categories of a document in order of code points. Paths that are no texts count here, too. -/
def allTags (document : Fields) : List Text :=
  let operations := (pathItems document).flatMap fun (_, item) => operationsOfItem [] item
  Text.sort (firstOccurrences (operations.map fun o => firstTag o.operation))

/-- Where a table of aliases comes from. -/
inductive AliasSource where
  | config
  | file
  | empty
deriving DecidableEq, Repr

/-- The aliases of categories. -/
structure Aliases where
  mapping : Table Text := []
  source : AliasSource := .empty
  /-- The categories that had no alias when they were registered. -/
  discovered : List Text := []
deriving DecidableEq, Repr

namespace Aliases

/-- The aliases with every category that has none standing for itself. -/
def register (a : Aliases) (tags : List Text) : Aliases :=
  tags.foldl
    (fun a tag =>
      if a.mapping.has tag then a
      else { a with mapping := a.mapping.put tag tag, discovered := a.discovered ++ [tag] })
    a

/-- The categories that one registration adds. -/
def newlyDiscovered (before after : Aliases) : List Text :=
  after.discovered.drop before.discovered.length

/-- The alias of a category, or the category itself. -/
def aliasOf (a : Aliases) (tag : Text) : Text := ((a.mapping.get? tag).filter (· ≠ [])).getD tag

def groupOf (a : Aliases) (tag : Text) : Text := Naming.groupDirectory (a.aliasOf tag)

def ofFields (fields : Fields) : Table Text :=
  Table.ofEntries (fields.map fun (k, v) => (k.toText, v.toText))

def toValue (mapping : Table Text) : Value :=
  .object (mapping.map fun (tag, name) => (.text tag, .text name))

end Aliases

end ClientGen
