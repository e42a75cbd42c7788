import ClientGen.Files.Access
import ClientGen.Settings.Validation
import ClientGen.Yaml.Error
/-!
# Failures of commands

A command ends in a complaint, which its user can act on, or in an accident. A complaint has a text;
both leave the files as they were when it arose.
-/

namespace ClientGen

/-- Why an API description cannot be used. -/
inductive DescriptionError where
  | missing (path : Text)
  | unreadable (path : Text)
  | notJson (source : Text)
  | notYaml (source : Text)
  /-- The value is not an object but of another kind. -/
  | notObject (kind : Text)
  | refused (url : Text) (status : Nat)
  | unanswered (url reason : Text)
deriving DecidableEq

def DescriptionError.message : DescriptionError → Text
  | missing path => "API description file not found: " ++ path
  | unreadable path => "Failed to read API description " ++ path
  | notJson source => "Failed to parse JSON in " ++ source
  | notYaml source => "Failed to parse YAML in " ++ source
  | notObject kind => "API description must deserialize to a mapping, got " ++ kind
  | refused url status => "Failed to fetch " ++ url ++ ": HTTP " ++ Text.ofNat status
  | unanswered url reason => "Failed to fetch " ++ url ++ ": " ++ reason

def manifestName : Text := "package.json"

def sectionName : Text := "swagger-typegen"

/-- Why the settings of a project cannot be used. -/
inductive ManifestError where
  | missing (directory : Text)
  | unreadable (path : Text)
  | malformed (path : Text)
  | notObject (path : Text)
  | sectionNotObject (path : Text)
  | invalid (path : Text) (findings : List Settings.Finding)
  | unwritable (path : Text)
deriving DecidableEq

def ManifestError.message : ManifestError → Text
  | missing directory => manifestName ++ " not found in " ++ directory
  | unreadable path => "Failed to read " ++ path
  | malformed path => "Failed to parse " ++ path
  | notObject path => path ++ " must contain a JSON object"
  | sectionNotObject path => "'" ++ sectionName ++ "' in " ++ path ++ " must be an object"
  | invalid path _ => "Invalid '" ++ sectionName ++ "' settings in " ++ path
  | unwritable path => "Failed to write " ++ path

/-- Why files of the output cannot be used. -/
inductive OutputError where
  | directory (path : Text)
  | unreadable (path : Text)
  | unwritable (path : Text)
  /-- A file or a directory cannot be removed. -/
  | stuck (path : Text)
deriving DecidableEq

def OutputError.message : OutputError → Text
  | directory path => "Failed to create directory " ++ path
  | unreadable path => "Failed to read file " ++ path
  | unwritable path => "Failed to write file " ++ path
  | stuck path => "Failed to remove " ++ path

/-- What a command tells its user about why it ended. -/
inductive Complaint where
  | description (e : DescriptionError)
  | manifest (e : ManifestError)
  | output (e : OutputError)
deriving DecidableEq

def Complaint.message : Complaint → Text
  | description e => e.message
  | manifest e => e.message
  | output e => e.message

/-- What a command does not expect. -/
inductive Accident where
  /-- A file that has to be a text is none. -/
  | notText
  | tooManyDigits
  | value (e : Yaml.ReadError)
  | file (e : FileError)
deriving DecidableEq

def Accident.message : Accident → Text
  | notText => "A file is not encoded in UTF-8"
  | tooManyDigits => "An integer in a JSON file has too many digits"
  | value e => e.message
  | file e => e.message

/-- Why a command ended before its time. -/
inductive Failure where
  | complaint (c : Complaint)
  | accident (a : Accident)
deriving DecidableEq

instance : Coe DescriptionError Failure := ⟨fun e => .complaint (.description e)⟩
instance : Coe ManifestError Failure := ⟨fun e => .complaint (.manifest e)⟩
instance : Coe OutputError Failure := ⟨fun e => .complaint (.output e)⟩
instance : Coe Accident Failure := ⟨.accident⟩

/-- The failure of a file operation that is answered with a complaint. A name that no file can have is an
accident. -/
def FileError.failure (complaint : Failure) : FileError → Failure
  | .badName => Accident.file .badName
  | _ => complaint

/-- What a command warns of and goes on. -/
inductive Warning where
  | manifestMissing (directory : Text)
  | aliasesUnread (path : Text)
  | aliasesNotObject (path : Text)
  /-- A file without markers was overwritten. -/
  | overwritten (path : Text)
deriving DecidableEq

def Warning.message : Warning → Text
  | manifestMissing directory =>
    manifestName ++ " not found in " ++ directory ++ ", using default settings"
  | aliasesUnread path => "Failed to read " ++ path ++ ", using an empty mapping"
  | aliasesNotObject path => path ++ " must contain a JSON object, using an empty mapping"
  | overwritten path => path ++ " has no generation markers and was overwritten"

end ClientGen
