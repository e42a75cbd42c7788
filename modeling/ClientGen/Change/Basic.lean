import ClientGen.Api.Operation
import ClientGen.TypeScript.ExportedFunctions
import ClientGen.TypeScript.TypeText
/-!
# Changes

What differs between the declarations and functions that an API description asks for and those of
existing files.
-/

namespace ClientGen

open Source

/-- How something differs. -/
inductive ChangeKind where
  | added
  | removed
  | modified
deriving DecidableEq, Repr

/-- A change of a field, of the list of extended interfaces, or of the type of an alias. -/
structure FieldChange where
  field : Text
  kind : ChangeKind
  oldType : Option Text := none
  newType : Option Text := none
  oldOptional : Bool := false
  newOptional : Bool := false
deriving DecidableEq, Repr

/-- A change of a declared type. -/
structure TypeChange where
  name : Text
  kind : ChangeKind
  fields : List FieldChange := []
deriving DecidableEq, Repr

/-- A change of a request function. -/
structure OperationChange where
  callName : Text
  kind : ChangeKind
  path : Text := []
  method : Text := []
deriving DecidableEq, Repr

def ChangeKind.name : ChangeKind → Text
  | .added => "added"
  | .removed => "removed"
  | .modified => "modified"

namespace Source.Field

/-- Whether two fields agree: in their type up to white space, and in whether they may be absent. -/
def agrees (a b : Field) : Bool :=
  a.isOptional = b.isOptional && normalizeType a.type = normalizeType b.type

end Source.Field

/-- The changes between two tables of fields: new and modified ones in the new order, then the removed
ones in the old order. -/
def fieldChanges (old new : Table Field) : List FieldChange :=
  let present := new.filterMap fun (name, n) =>
    match old.get? name with
    | none => some { field := name, kind := .added, newType := some n.type, newOptional := n.isOptional }
    | some o =>
      if o.agrees n then none
      else
        some
          { field := name, kind := .modified, oldType := some o.type, newType := some n.type
            oldOptional := o.isOptional, newOptional := n.isOptional }
  let gone := (old.filter fun (name, _) => !new.has name).map fun (name, o) =>
    { field := name, kind := .removed, oldType := some o.type, oldOptional := o.isOptional }
  present ++ gone

def textChange? (field : Text) (old new : Option Text) : Option FieldChange :=
  match old, new with
  | none, none => none
  | none, some n => some { field, kind := .added, newType := some n }
  | some o, none => some { field, kind := .removed, oldType := some o }
  | some o, some n =>
    if normalizeType o = normalizeType n then none
    else some { field, kind := .modified, oldType := some o, newType := some n }

/-- The text of a list of extended interfaces, if it is not empty. -/
def parentsText (parents : List Text) : Option Text :=
  (some (Text.join ", " parents)).filter (· ≠ [])

def declarationChanges (old new : Declared) : List FieldChange :=
  fieldChanges old.fields new.fields ++
    (textChange? "(extends)" (parentsText old.parents) (parentsText new.parents)).toList ++
    (textChange? "(alias)" old.aliased? new.aliased?).toList

/-- The changes between two tables of declarations: new and modified types in the new order, then the
removed ones in the old order. -/
def typeChanges (old new : Table Declared) : List TypeChange :=
  let present := new.filterMap fun (name, n) =>
    match old.get? name with
    | none => some { name, kind := .added }
    | some o =>
      match declarationChanges o n with
      | [] => none
      | fields => some { name, kind := .modified, fields }
  let gone := (old.filter fun (name, _) => !new.has name).map fun (name, _) =>
    { name, kind := .removed }
  present ++ gone

/-- The changes between an existing types file and the expected declarations; all are new when there is
no file. -/
def detectTypeChanges (expected : Table Declared) (existing : Option Text) : List TypeChange :=
  typeChanges ((existing.map declaredTypes).getD []) expected

/-- The part of a functions file whose functions are compared: the generated region, if there is one. -/
def comparedPart (file : Text) : Text :=
  match MarkedFile.ofText? file with
  | some parts => parts.region
  | none => file

/-- The changes between an existing functions file and the operations: new functions in the order of
the operations, then the removed ones in the order of the file. -/
def detectOperationChanges (operations : List Operation) (existing : Option Text) :
    List OperationChange :=
  let functions := (existing.map fun t => exportedFunctions (comparedPart t)).getD []
  let present := (operations.filter fun o => !functions.has o.callName).map fun o =>
    { callName := o.callName, kind := .added, path := o.path, method := o.method }
  let gone := (functions.keys.filter fun name => name ∉ operations.map Operation.callName).map fun name =>
    { callName := name, kind := .removed }
  present ++ gone

end ClientGen
