import ClientGen.Api.Model
import ClientGen.Project.AliasFile
import ClientGen.TypeScript.FunctionsFile
import ClientGen.TypeScript.TypesFile
/-!
# Updating the generated code

Every group of operations has a directory with a file of types, which is written anew, and a file of
functions, of which only the generated region is.
-/

namespace ClientGen

def typesFileName : Text := "types.ts"

def functionsFileName : Text := "index.ts"

/-- What was generated for a group. -/
structure GroupResult where
  group : Text
  action : MergeAction
  operationCount : Nat
  typeCount : Nat
deriving DecidableEq

/-- What an update did. -/
structure UpdateResult where
  output : Path
  newLabels : List Text
  aliasSource : AliasSource
  groups : List GroupResult := []
  warnings : List Text := []
deriving DecidableEq

/-- How far an update goes. -/
structure UpdateOptions where
  /-- Whether the output is removed first, but for the file of aliases. -/
  clean : Bool := false
  /-- Whether only the file of aliases is written. -/
  initOnly : Bool := false
deriving DecidableEq

variable {m : Type → Type} [Monad m] [Host m]

/-- The text of a file of the output, if there is one. -/
def readOutput? (path : Path) : Task m (Option Text) := do
  if ← isFile path then return some (← readText (OutputError.unreadable path.toText) path)
  return none

def writeOutput (path : Path) (t : Text) : Task m Unit :=
  writeText (OutputError.unwritable path.toText) path t

/-- Removes a file or a directory of the output. -/
def removeOutput (path : Path) : Task m Unit :=
  Task.attempt (FileError.failure (OutputError.stuck path.toText)) (Host.remove path)

/-- Removes what is in the output directory, but for the entries named `keep`. -/
def clearOutput (output : Path) (keep : List Text) : Task m Unit := do
  if ← isDirectory output then
    let names ← Task.attempt (fun e => Accident.file e) (Host.names output)
    (names.filter fun name => !keep.contains name).forM fun name => removeOutput (output.child name)

def writeGroup (output : Path) (group types functions : Text) : Task m MergeAction := do
  let directory := output.child group
  makeOutput directory
  writeOutput (directory.child typesFileName) types
  let path := directory.child functionsFileName
  let merged := mergeFunctionsFile (← readOutput? path) functions
  if merged.action = .replaced then warn (.overwritten path.toText)
  writeOutput path merged.content
  return merged.action

def generateGroup (s : Settings) (output : Path) (types : List NamedType)
    (group : Text × List Operation) : Task m GroupResult := do
  let (name, operations) := group
  let types := groupTypes operations types
  let action ← writeGroup output name (renderTypesFile s types operations)
    (renderFunctionsFile s operations)
  return ⟨name, action, operations.length, types.length⟩

/-- Updates the generated code of the project in a directory. -/
def update (s : Settings) (directory : Path) (options : UpdateOptions) : Task m UpdateResult := do
  let document ← loadDescription directory s.input
  let output := directory / Path.ofText s.output
  let given ← loadAliases output s.tagMapping
  let aliases := given.register (allTags document)
  let result : UpdateResult :=
    { output, newLabels := given.newlyDiscovered aliases, aliasSource := aliases.source }
  saveAliases output aliases
  if options.initOnly then return result
  if options.clean then clearOutput output [aliasFileName]
  let model := ApiModel.ofDocument s aliases document
  let groups ← model.operations.mapM (generateGroup s output model.allTypes)
  return { result with groups, warnings := model.warnings }

end ClientGen
