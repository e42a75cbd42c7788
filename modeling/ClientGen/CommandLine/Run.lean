import ClientGen.CommandLine.Options
import ClientGen.Project.Check
import ClientGen.Project.Manifest
/-!
# Running a command line

What a command prints, and the exit code of the program.
-/

namespace ClientGen.CommandLine

/-- How a run ended. -/
structure Ending where
  /-- The exit code: zero, or two when the user has to change something. -/
  exitCode : Nat
  output : Text := []
  complaint : Option Complaint := none
deriving DecidableEq

def printed (lines : List Text) : Text := lines.flatMap (· ++ "\n")

def actionName : MergeAction → Text
  | .created => "created"
  | .merged => "merged"
  | .replaced => "replaced"

/-- The lines about categories without an alias. -/
def newLabelLines (labels : List Text) (source : AliasSource) : List Text :=
  if labels.isEmpty then []
  else
    let advice : Text :=
      if source = .config then
        "Add aliases for them under '" ++ sectionName ++ ".tagMapping' in " ++ manifestName
      else
        "Edit " ++ aliasFileName ++ " in the output directory to rename them, then run update"
    ("Found " ++ Text.ofNat labels.length ++ " unmapped categories:") ::
      labels.map (fun label => "  - " ++ label) ++ [advice]

def warningLines (warnings : List Text) : List Text := warnings.map fun w => "Warning: " ++ w

def groupLine (g : GroupResult) : Text := "  - " ++ g.group ++ "/ (" ++ actionName g.action ++ ")"

def updateLines (initOnly : Bool) (r : UpdateResult) : List Text :=
  let done : List Text :=
    if initOnly then
      ["Category aliases written to " ++ (r.output.child aliasFileName).toText]
    else r.groups.map groupLine ++ ["Done. Output directory: " ++ r.output.toText]
  newLabelLines r.newLabels r.aliasSource ++ warningLines r.warnings ++ done

def checkLines (r : CheckResult) : List Text :=
  warningLines r.warnings ++
    [r.report.summary, "Change report written to " ++ r.changelog.toText]

def initLines (directory : Path) (added : Bool) : List Text :=
  let path := (manifestPath directory).toText
  if added then ["Added '" ++ sectionName ++ "' settings to " ++ path]
  else ["'" ++ sectionName ++ "' settings already present in " ++ path]

variable {m : Type → Type} [Monad m] [Host m]

/-- Runs a command; the result is what is printed. A report is dated `now`. -/
def execute (now : Text) (r : Request) : Task m Text := do
  let directory := Path.ofText r.directory
  match r.command with
  | .init => return printed (initLines directory (← addSettings directory))
  | .update =>
    let s ← loadSettings directory
    return printed (updateLines r.initOnly (← update s directory ⟨r.clean, r.initOnly⟩))
  | .check =>
    let s ← loadSettings directory
    return printed (checkLines (← check s directory now))

def run (now : Text) (arguments : List Text) : m (Except Accident Ending) := do
  match read arguments with
  | .help => return .ok ⟨0, [], none⟩
  | .invalid => return .ok ⟨2, [], none⟩
  | .run r =>
    match ← (execute now r : Task m Text).run with
    | .ok output => return .ok ⟨0, output, none⟩
    | .error (.complaint c) => return .ok ⟨2, [], some c⟩
    | .error (.accident a) => return .error a

end ClientGen.CommandLine
