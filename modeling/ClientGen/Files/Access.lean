import ClientGen.Files.Path
import ClientGen.Files.Tree
/-!
# Reading and changing a file tree

A path leads to a place through the links and the points on its way. Each operation says why it fails;
one that fails changes nothing, except that directories on the way may have been made.
-/

namespace ClientGen

/-- Why a file cannot be used. -/
inductive FileError where
  /-- A directory on the way, or the file itself, is not there. -/
  | missing
  | notDirectory
  | isDirectory
  /-- Something is there already. -/
  | occupied
  | tooManyLinks
  | tooLong
  | badName
  /-- The operation is not allowed or cannot be done. -/
  | refused
deriving DecidableEq, Repr

namespace FileError

/-- Whether a path that fails so leads nowhere, rather than to something that cannot be looked at. -/
def leadsNowhere (e : FileError) : Bool := e ≠ .tooLong && e ≠ .refused

def message : FileError → Text
  | missing => "No such file or directory"
  | notDirectory => "Not a directory"
  | isDirectory => "Is a directory"
  | occupied => "File exists"
  | tooManyLinks => "Too many levels of symbolic links"
  | tooLong => "File name too long"
  | badName => "A file name holds the character zero"
  | refused => "Operation not permitted"

end FileError

namespace FileTree

/-- The number of links that a path may lead through. -/
def maxLinks : Nat := 40

/-- The number of bytes that a name may have. -/
def maxNameBytes : Nat := 255

/-- Where a walk along names ends. -/
inductive Stop where
  /-- All names are used; the place is free or has an entry. -/
  | at (place : Place) (entry : Option Entry)
  /-- A link stands in a directory, before the other names. -/
  | link (directory : Place) (target : Text) (names : List Text)

/-- Walks along names from a directory, up to the first link. The last name may be a link when links
are not followed to their end. -/
def walk (t : FileTree) (follow : Bool) : List Text → Place → Except FileError Stop
  | [], p => .ok (.at p (some .directory))
  | name :: names, p =>
    if name = ['.', '.'] then walk t follow names p.dropLast
    else if maxNameBytes < (String.ofList name).utf8ByteSize then .error .tooLong
    else
      let q := p ++ [name]
      match t.get? q with
      | none => if names = [] then .ok (.at q none) else .error .missing
      | some (.file c) => if names = [] then .ok (.at q (some (.file c))) else .error .notDirectory
      | some .directory => walk t follow names q
      | some (.link target) =>
        if names = [] && !follow then .ok (.at q (some (.link target)))
        else .ok (.link p target names)

/-- The place to which names lead from a directory, and what is there, through `links` links. -/
def follow (t : FileTree) (last : Bool) :
    (links : Nat) → List Text → Place → Except FileError (Place × Option Entry)
  | links, names, p =>
    match t.walk last names p with
    | .error e => .error e
    | .ok (.at q e) => .ok (q, e)
    | .ok (.link directory target names) =>
      match links with
      | 0 => .error .tooManyLinks
      | links + 1 =>
        let path := Path.ofText target
        follow t last links (path.names ++ names) (if path.isAbsolute then [] else directory)

/-- The place to which a path leads, and what is there. A link at the end is followed if `last` is set. -/
def find (t : FileTree) (last : Bool) (path : Path) : Except FileError (Place × Option Entry) :=
  if path.hasZero then .error .badName
  else t.follow last maxLinks path.names (if path.isAbsolute then [] else t.here)

/-- Whether an entry that satisfies `is` stands at the end of a path. A path that leads nowhere has
none. -/
def leadsTo (t : FileTree) (is : Entry → Bool) (path : Path) : Except FileError Bool :=
  match t.find true path with
  | .ok (_, e) => .ok (e.any is)
  | .error e => if e.leadsNowhere then .ok false else .error e

def isFile (t : FileTree) : Path → Except FileError Bool :=
  t.leadsTo fun
    | .file _ => true
    | _ => false

def isDirectory (t : FileTree) : Path → Except FileError Bool :=
  t.leadsTo fun
    | .directory => true
    | _ => false

def read (t : FileTree) (path : Path) : Except FileError Content :=
  match t.find true path with
  | .ok (_, some (.file c)) => .ok c
  | .ok (_, some _) => .error .isDirectory
  | .ok (_, none) => .error .missing
  | .error e => .error e

def write (t : FileTree) (path : Path) (c : Content) : Except FileError FileTree :=
  match t.find true path with
  | .ok (p, some (.file _)) | .ok (p, none) => .ok (t.put p (.file c))
  | .ok (_, some _) => .error .isDirectory
  | .error e => .error e

def makeLink (t : FileTree) (path : Path) (target : Text) : Except FileError FileTree :=
  match t.find false path with
  | .ok (p, none) => .ok (t.put p (.link target))
  | .ok (_, some _) => .error .occupied
  | .error e => .error e

def makeDirectory (t : FileTree) (path : Path) : Except FileError FileTree :=
  match t.find false path with
  | .ok (p, none) => .ok (t.put p .directory)
  | .ok (_, some _) => .error .occupied
  | .error e => .error e

/-- The outcome of making a directory that may be there already. -/
def unlessDirectory (t : FileTree) (path : Path) (e : FileError) : Except FileError Unit × FileTree :=
  match e, t.isDirectory path with
  | .badName, _ => (.error .badName, t)
  | _, .ok true => (.ok (), t)
  | e, _ => (.error e, t)

/-- Makes a directory, if it is not there, and the directories on the way; at most `count` of these. -/
def makeAll (path : Path) : (count : Nat) → FileTree → Except FileError Unit × FileTree
  | count, t =>
    match t.makeDirectory path, count with
    | .ok t, _ => (.ok (), t)
    | .error .missing, 0 => (.error .missing, t)
    | .error .missing, count + 1 =>
      match makeAll path.parent count t with
      | (.ok (), t) =>
        match t.makeDirectory path with
        | .ok t => (.ok (), t)
        | .error .missing => (.error .missing, t)
        | .error e => t.unlessDirectory path e
      | failed => failed
    | .error e, _ => t.unlessDirectory path e

/-- Makes a directory, if it is not there, and the directories on the way. -/
def makeDirectories (t : FileTree) (path : Path) : Except FileError Unit × FileTree :=
  makeAll path path.names.length t

def names (t : FileTree) (path : Path) : Except FileError (List Text) :=
  match t.find true path with
  | .ok (p, some .directory) =>
    .ok (t.entries.filterMap fun (q, _) =>
      if q.length = p.length + 1 && q.take p.length = p then q.getLast? else none)
  | .ok (_, some _) => .error .notDirectory
  | .ok (_, none) => .error .missing
  | .error e => .error e

/-- The tree without what is at a path, and below it if it is a directory. -/
def remove (t : FileTree) (path : Path) : Except FileError FileTree :=
  match t.find false path with
  | .ok (p, some _) => .ok (t.without fun q => q.take p.length = p)
  | .ok (_, none) => .error .missing
  | .error e => .error e

end FileTree

end ClientGen
