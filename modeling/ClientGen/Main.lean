import ClientGen.CommandLine.Run
import Std.Time.DateTime
/-!
# The program

The host of the program is the machine that it runs on, with its disk, its clock and its standard streams.
It reaches no network.
-/

namespace ClientGen.Disk

/-- Why an operation on the disk failed. Libraries give the number of an error with either sign. -/
def cause : IO.Error → FileError
  | .noFileOrDirectory .. => .missing
  | .alreadyExists .. => .occupied
  | .inappropriateType .. => .notDirectory
  | .invalidArgument _ code _ => if code = 40 || code = 0 - 40 then .tooManyLinks else .tooLong
  | _ => .refused

/-- An operation at the place of a path, or why it failed. -/
def attempt {α : Type} (path : Path) (action : (name : String) → IO α) : IO (Except FileError α) := do
  if path.hasZero then return .error .badName
  match ← (action (String.ofList path.toText)).toBaseIO with
  | .ok a => return .ok a
  | .error e => return .error (cause e)

def leadsTo (kind : IO.FS.FileType) (path : Path) : IO (Except FileError Bool) := do
  let found ← attempt path fun name => do return (← ((← IO.currentDir) / name).metadata).type == kind
  match found with
  | .error e => return if e.leadsNowhere then .ok false else .error e
  | found => return found

/-- Removes what has a name, with all below it if it is a directory. A link is removed by itself. -/
def removeTree (name : String) : IO Unit := do
  if (← ((← IO.currentDir) / name).symlinkMetadata).type == .dir then IO.FS.removeDirAll name
  else IO.FS.removeFile name

end ClientGen.Disk

namespace ClientGen

instance : Host IO where
  isFile := Disk.leadsTo .file
  read path := Disk.attempt path fun name => return Content.ofBytes (← IO.FS.readBinFile name)
  write path t := Disk.attempt path fun name => IO.FS.writeBinFile name (Content.text t).toBytes
  makeDirectories path := Disk.attempt path fun name => IO.FS.createDirAll name
  isDirectory := Disk.leadsTo .dir
  names path := Disk.attempt path fun name =>
    return ((← ((← IO.currentDir) / name).readDir).toList.map fun entry => entry.fileName.toList)
  remove path := Disk.attempt path Disk.removeTree
  request _ := return .error "no network is available"
  warn w := IO.eprintln ("WARNING " ++ String.ofList w.message)

/-- The present moment as `2020-01-31T10:00:00+00:00`. -/
def presentMoment : IO Text := do
  let t := Std.Time.PlainDateTime.ofWallTime ((← Std.Time.Timestamp.now).toWallTime .zero)
  let date : Date := ⟨t.year.toInt.toNat, t.month.toInt.toNat, t.day.toInt.toNat⟩
  let moment : Moment :=
    ⟨date, t.hour.toInt.toNat, t.minute.toInt.toNat, t.second.toInt.toNat, 0, some 0⟩
  return moment.toText.map fun c => if c = ' ' then 'T' else c

end ClientGen

open ClientGen

/-- Runs the command line. The user is told on the standard error stream what went wrong. -/
def main (arguments : List String) : IO UInt32 := do
  let tell (message : Text) : IO Unit :=
    IO.eprintln ("swagger-typegen: error: " ++ String.ofList message)
  match ← CommandLine.run (← presentMoment) (arguments.map String.toList) with
  | .ok ending =>
    IO.print (String.ofList ending.output)
    if let some complaint := ending.complaint then tell complaint.message
    return ending.exitCode.toUInt32
  | .error accident =>
    tell accident.message
    return 1
