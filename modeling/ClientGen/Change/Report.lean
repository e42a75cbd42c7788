import ClientGen.Change.Basic
import ClientGen.Text.Case
/-!
# Change reports

The changes of all groups, as a Markdown file and as a summary of a few lines.
-/

namespace ClientGen

open Text

/-- The changes of a group. -/
structure GroupChanges where
  group : Text
  types : List TypeChange
  operations : List OperationChange
deriving DecidableEq, Repr

/-- The changes of all groups that have some. -/
structure ChangeReport where
  generatedAt : Text
  groups : List GroupChanges
deriving DecidableEq, Repr

def ChangeKind.icon : ChangeKind → Text
  | .added => "+"
  | .removed => "-"
  | .modified => "~"

namespace FieldChange

/-- A type text and a remark when the field may be absent. -/
def describe (type : Option Text) (isOptional : Bool) : Text :=
  let remark : Text := if isOptional then " (optional)" else []
  type.getD [] ++ remark

def line (c : FieldChange) : Text :=
  let old := describe c.oldType c.oldOptional
  let new := describe c.newType c.newOptional
  let detail : Text :=
    match c.kind with
    | .added => new ++ " (added)"
    | .removed => old ++ " (removed)"
    | .modified => old ++ " -> " ++ new ++ " (changed)"
  "  - " ++ c.kind.icon ++ " \x60" ++ c.field ++ "\x60: " ++ detail

end FieldChange

def TypeChange.lines (c : TypeChange) : List Text :=
  let heading := "- " ++ c.kind.icon ++ " **" ++ c.name ++ "**:"
  match c.kind with
  | .added => [heading ++ " new type"]
  | .removed => [heading ++ " removed"]
  | .modified => heading :: c.fields.map FieldChange.line

namespace OperationChange

def addedLine (c : OperationChange) : Text :=
  "- + \x60" ++ upper c.method ++ " " ++ c.path ++ "\x60 -> " ++ c.callName

def removedLine (c : OperationChange) : Text := "- - \x60" ++ c.callName ++ "\x60"

end OperationChange

/-- A heading with its lines and an empty line, or nothing when there are no lines. -/
def listing (heading : Text) (lines : List Text) : List Text :=
  if lines.isEmpty then [] else heading :: lines ++ [[]]

namespace GroupChanges

def typeLines (g : GroupChanges) : List Text :=
  if g.types.isEmpty then []
  else listing "### Type changes" ([] :: g.types.flatMap TypeChange.lines)

def operationLines (g : GroupChanges) : List Text :=
  if g.operations.isEmpty then []
  else
    ["### API changes".toList, []] ++
      listing "**Added endpoints:**"
        ((g.operations.filter (·.kind = .added)).map OperationChange.addedLine) ++
      listing "**Removed endpoints:**"
        ((g.operations.filter (·.kind = .removed)).map OperationChange.removedLine)

def lines (g : GroupChanges) : List Text :=
  ["## " ++ g.group, []] ++ g.typeLines ++ g.operationLines

def summaryLine (g : GroupChanges) : Text :=
  "- " ++ g.group ++ ": " ++ ofNat g.types.length ++ " type change(s), " ++
    ofNat g.operations.length ++ " API change(s)"

end GroupChanges

namespace ChangeReport

def changelog (r : ChangeReport) : Text :=
  let head : List Text := ["# API Change Report", [], "Generated at: " ++ r.generatedAt, []]
  if r.groups.isEmpty then join "\n" (head ++ ["No changes detected.".toList]) ++ "\n"
  else join "\n" (head ++ r.groups.flatMap GroupChanges.lines)

def summary (r : ChangeReport) : Text :=
  join "\n"
    (["Groups with changes: " ++ ofNat r.groups.length,
      "Type changes: " ++ ofNat (r.groups.foldl (fun n g => n + g.types.length) 0),
      "API changes: " ++ ofNat (r.groups.foldl (fun n g => n + g.operations.length) 0)] ++
      r.groups.map GroupChanges.summaryLine)

end ChangeReport

end ClientGen
