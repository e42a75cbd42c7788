import ClientGen.Api.Category
import ClientGen.Json.Reader
import ClientGen.Json.Writer
import ClientGen.Project.Description
/-!
# The file of aliases

Aliases that are not set in the settings are kept in a file of the output directory. Categories that
are met for the first time are added to it.
-/

namespace ClientGen

def aliasFileName : Text := "tag-mapping.json"

variable {m : Type → Type} [Monad m] [Host m]

/-- The aliases in the file of an output directory. A file that cannot be read holds none. -/
def readAliasFile (output : Path) : Task m (Table Text) := do
  let path := output.child aliasFileName
  if !(← isFile path) then return []
  match ← (Host.read path : m (Except FileError Content)) with
  | .error .badName => throw (Accident.file .badName : Failure)
  | .error _ =>
    warn (.aliasesUnread path.toText)
    return []
  | .ok (.bytes _) => throw (Accident.notText : Failure)
  | .ok (.text t) =>
    match Json.read (unifyLineEnds t) with
    | .error .tooManyDigits => throw (Accident.tooManyDigits : Failure)
    | .error .malformed =>
      warn (.aliasesUnread path.toText)
      return []
    | .ok (.object fields) => return Aliases.ofFields fields
    | .ok _ =>
      warn (.aliasesNotObject path.toText)
      return []

/-- The aliases of a run: those of the settings, if there are any, and else those of the file. -/
def loadAliases (output : Path) (configured : Table Text) : Task m Aliases := do
  if configured ≠ [] then return { mapping := configured, source := .config }
  let mapping ← readAliasFile output
  return { mapping, source := if mapping = [] then .empty else .file }

/-- Makes a directory, with those on the way. -/
def makeOutput (path : Path) : Task m Unit :=
  Task.attempt (FileError.failure (OutputError.directory path.toText)) (Host.makeDirectories path)

/-- Writes aliases with newly met categories back, unless they are set in the settings. -/
def saveAliases (output : Path) (a : Aliases) : Task m Unit := do
  if a.source = .config || a.discovered = [] then return
  makeOutput output
  let path := output.child aliasFileName
  writeText (OutputError.unwritable path.toText) path (Json.write (Aliases.toValue a.mapping) ++ "\n")

end ClientGen
