import ClientGen.Text.Basic
/-!
# The generated region

A functions file has one region between two marker lines. Only the first start marker and the first end
marker count, and only when the end does not come before the start.
-/

namespace ClientGen

def startMarker : Text := "// --- AUTO GENERATED START ---"

def endMarker : Text := "// --- AUTO GENERATED END ---"

/-- A file taken apart at its markers. -/
structure MarkedFile where
  before : Text
  region : Text
  after : Text
deriving DecidableEq, Repr

namespace MarkedFile

/-- The parts of a text with usable markers. -/
def ofText? (t : Text) : Option MarkedFile :=
  match Text.cut? startMarker t with
  | none => none
  | some (before, inside) =>
    match Text.cut? endMarker t with
    | none => none
    | some (upToEnd, after) =>
      if upToEnd.length < before.length then none
      else
        let region := inside.take (inside.length - endMarker.length - after.length)
        some ⟨before, region, after⟩

def toText (f : MarkedFile) : Text := f.before ++ startMarker ++ f.region ++ endMarker ++ f.after

/-- The indices of the start marker and of the end of the end marker. -/
def bounds (f : MarkedFile) : Nat × Nat :=
  (f.before.length, (f.before ++ startMarker ++ f.region ++ endMarker).length)

end MarkedFile

/-- How a functions file came about. -/
inductive MergeAction where
  /-- There was no file. -/
  | created
  /-- The generated region of a file was exchanged. -/
  | merged
  /-- A file without usable markers was exchanged as a whole. -/
  | replaced
deriving DecidableEq, Repr

/-- A functions file and how it came about. -/
structure Merge where
  content : Text
  action : MergeAction
deriving DecidableEq, Repr

/-- Puts the generated region into an existing file and keeps what stands outside its markers. -/
def mergeFunctionsFile (existing : Option Text) (generated : Text) : Merge :=
  match existing with
  | none => ⟨generated, .created⟩
  | some old =>
    match MarkedFile.ofText? old, MarkedFile.ofText? generated with
    | some kept, some new => ⟨{ kept with region := new.region }.toText, .merged⟩
    | _, _ => ⟨generated, .replaced⟩

end ClientGen
