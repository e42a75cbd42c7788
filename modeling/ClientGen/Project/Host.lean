import ClientGen.Project.Failure
import ClientGen.Text.Table
/-!
# Hosts

A host is what commands run on: it keeps files, answers requests and takes warnings. A machine is a host
whose files and answers are values, so that what a command does to it can be stated and computed.
-/

namespace ClientGen

/-- The answer to a request. -/
structure Reply where
  status : Nat
  text : Text
  location : Option Text
deriving DecidableEq

/-- What commands need of the host that they run on. -/
class Host (m : Type → Type) where
  isFile (path : Path) : m (Except FileError Bool)
  read (path : Path) : m (Except FileError Content)
  write (path : Path) (t : Text) : m (Except FileError Unit)
  makeDirectories (path : Path) : m (Except FileError Unit)
  isDirectory (path : Path) : m (Except FileError Bool)
  names (path : Path) : m (Except FileError (List Text))
  /-- Removes what is at a path, with all below it. -/
  remove (path : Path) : m (Except FileError Unit)
  /-- The answer to a request, or why there is none. -/
  request (url : Text) : m (Except Text Reply)
  warn (w : Warning) : m Unit

/-- A host whose files and answers are values. -/
structure Machine where
  files : FileTree
  replies : Table Reply := []
  warnings : List Warning := []
deriving DecidableEq

namespace Machine

/-- Changes the files, unless the change fails. -/
def change (f : FileTree → Except FileError FileTree) : StateM Machine (Except FileError Unit) :=
  fun s =>
    match f s.files with
    | .ok files => (.ok (), { s with files })
    | .error e => (.error e, s)

instance : Host (StateM Machine) where
  isFile path := fun s => (s.files.isFile path, s)
  read path := fun s => (s.files.read path, s)
  write path t := change fun files => files.write path (.text t)
  makeDirectories path := fun s =>
    let (result, files) := s.files.makeDirectories path
    (result, { s with files })
  isDirectory path := fun s => (s.files.isDirectory path, s)
  names path := fun s => (s.files.names path, s)
  remove path := change fun files => files.remove path
  request url := fun s =>
    match s.replies.get? url with
    | some reply => (.ok reply, s)
    | none => (.error "connection refused", s)
  warn w := fun s => ((), { s with warnings := s.warnings ++ [w] })

end Machine

/-- A command or a part of one. -/
abbrev Task (m : Type → Type) (α : Type) := ExceptT Failure m α

namespace Task

variable {m : Type → Type} [Monad m] {α : Type}

/-- A file operation whose failures are answered by `failure`. -/
def attempt (failure : FileError → Failure) (action : m (Except FileError α)) : Task m α :=
  .mk do
    match ← action with
    | .ok a => return .ok a
    | .error e => return .error (failure e)

end Task

/-- A text in which every line ends with a line feed alone. -/
def unifyLineEnds : Text → Text
  | '\r' :: '\n' :: t => '\n' :: unifyLineEnds t
  | '\r' :: t => '\n' :: unifyLineEnds t
  | c :: t => c :: unifyLineEnds t
  | [] => []

variable {m : Type → Type} [Monad m] [Host m]

def isFile (path : Path) : Task m Bool :=
  Task.attempt (fun e => Accident.file e) (Host.isFile path)

def isDirectory (path : Path) : Task m Bool :=
  Task.attempt (fun e => Accident.file e) (Host.isDirectory path)

/-- The text of the file at a path, its lines ended by line feeds. -/
def readText (failure : Failure) (path : Path) : Task m Text := do
  match ← Task.attempt (FileError.failure failure) (Host.read path) with
  | .text t => return unifyLineEnds t
  | .bytes _ => throw (Accident.notText : Failure)

def writeText (failure : Failure) (path : Path) (t : Text) : Task m Unit :=
  Task.attempt (FileError.failure failure) (Host.write path t)

def warn (w : Warning) : Task m Unit := liftM (Host.warn w : m Unit)

end ClientGen
