import ClientGen.Change.Report
import ClientGen.Project.Update
/-!
# Checking the generated code

The description is compared with the files that are there. Nothing below the output directory is
written; the report goes to a file of the project.
-/

namespace ClientGen

def changelogName : Text := "changelog.md"

/-- What a check found. -/
structure CheckResult where
  report : ChangeReport
  changelog : Path
  warnings : List Text
deriving DecidableEq

variable {m : Type → Type} [Monad m] [Host m]

/-- The changes of a group against its files. -/
def checkGroup (s : Settings) (output : Path) (types : List NamedType)
    (group : Text × List Operation) : Task m GroupChanges := do
  let (name, operations) := group
  let directory := output.child name
  let expected := Source.declaredTypes (renderTypesFile s (groupTypes operations types) operations)
  let typeChanges := detectTypeChanges expected (← readOutput? (directory.child typesFileName))
  let operationChanges :=
    detectOperationChanges operations (← readOutput? (directory.child functionsFileName))
  return ⟨name, typeChanges, operationChanges⟩

def GroupChanges.isChange (g : GroupChanges) : Bool := g.types ≠ [] || g.operations ≠ []

/-- Checks the generated code of the project in a directory. -/
def check (s : Settings) (directory : Path) (generatedAt : Text) : Task m CheckResult := do
  let document ← loadDescription directory s.input
  let output := directory / Path.ofText s.output
  let aliases := (← loadAliases output s.tagMapping).register (allTags document)
  let model := ApiModel.ofDocument s aliases document
  let groups ← model.operations.mapM (checkGroup s output model.allTypes)
  let report : ChangeReport := ⟨generatedAt, groups.filter GroupChanges.isChange⟩
  let path := directory.child changelogName
  writeOutput path report.changelog
  return ⟨report, path, model.warnings⟩

end ClientGen
