import ClientGen.Text.Basic
/-!
# Paths

A path is a root and the names behind it. Repeated slashes and the name `.` do not count; the name
`..` is kept, because what it means depends on the links of a file tree.
-/

namespace ClientGen

structure Path where
  /-- The slashes at the beginning: none for a relative path, and at most two. -/
  root : Text
  names : List Text
deriving DecidableEq

namespace Path

/-- The slashes that count at the beginning of a path. More than two count as one. -/
def rootOf (t : Text) : Text :=
  let n := (t.takeWhile (· == '/')).length
  List.replicate (if 2 < n then 1 else n) '/'

def ofText (t : Text) : Path :=
  ⟨rootOf t, (Text.splitOn '/' t).filter fun name => name ≠ [] && name ≠ ['.']⟩

instance : Coe Text Path := ⟨ofText⟩

/-- The text of a path. The empty path is written as a point. -/
def toText (p : Path) : Text :=
  if p.root = [] && p.names = [] then ['.'] else p.root ++ Text.join ['/'] p.names

def isAbsolute (p : Path) : Bool := p.root ≠ []

/-- Whether a name holds the character zero, which no file has in its name. -/
def hasZero (p : Path) : Bool := p.names.any (·.contains '\x00')

/-- The path of `q` as seen from the directory `p`. -/
def join (p q : Path) : Path := if q.isAbsolute then q else ⟨p.root, p.names ++ q.names⟩

instance : HDiv Path Path Path := ⟨join⟩

def child (p : Path) (name : Text) : Path := p / ofText name

/-- The path without its last name. -/
def parent (p : Path) : Path := ⟨p.root, p.names.dropLast⟩

theorem join_names {p q : Path} (h : q.isAbsolute = false) : (p / q).names = p.names ++ q.names := by
  simp [HDiv.hDiv, join, h]

end Path

end ClientGen
