import ClientGen.Json.Reader
import ClientGen.Json.Writer
import ClientGen.Project.Description
/-!
# The manifest

The settings of a project are a section of its manifest. A project without a manifest, or without the
section, has the default settings.
-/

namespace ClientGen

variable {m : Type → Type} [Monad m] [Host m]

def manifestPath (directory : Path) : Path := directory.child manifestName

def readManifest (path : Path) : Task m Fields := do
  let t ← readText (ManifestError.unreadable path.toText) path
  match (Json.read t).mapError (Json.ReadError.failure (ManifestError.malformed path.toText)) with
  | .error e => throw e
  | .ok (.object fields) => return fields
  | .ok _ => throw (ManifestError.notObject path.toText : Failure)

/-- The settings that a section of the manifest at a path holds. -/
def settingsOfSection (path : Path) : Value → Except ManifestError Settings
  | .object fields => (Settings.ofFields fields).mapError (ManifestError.invalid path.toText)
  | _ => .error (.sectionNotObject path.toText)

def loadSettings (directory : Path) : Task m Settings := do
  let path := manifestPath directory
  if ← isFile path then
    let section? := ((← readManifest path).get? sectionName).filter (!·.isNull)
    match section? with
    | none => return {}
    | some v =>
      match settingsOfSection path v with
      | .ok s => return s
      | .error e => throw (e : Failure)
  else
    warn (.manifestMissing directory.toText)
    return {}

/-- Writes the section with the initial settings into the manifest, unless it has the section. Says
whether it did. -/
def addSettings (directory : Path) : Task m Bool := do
  let path := manifestPath directory
  if ← isFile path then
    let fields ← readManifest path
    if (fields.get? sectionName).isSome then return false
    let fields := fields.put (.text sectionName) (.object Settings.initialFields)
    writeText (ManifestError.unwritable path.toText) path (Json.write (.object fields) ++ "\n")
    return true
  else throw (ManifestError.missing directory.toText : Failure)

end ClientGen
