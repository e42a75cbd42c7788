import ClientGen.Text.Basic
/-!
# File trees

A file tree says for each place whether a file, a directory or a link is there. A place is the list of
the names that lead to it from the root, without links or points; the root itself is always a
directory.
-/

namespace ClientGen

abbrev Place := List Text

/-- What a file holds. -/
inductive Content where
  | text (t : Text)
  /-- Bytes that are no text in UTF-8. -/
  | bytes (bs : List UInt8)
deriving DecidableEq

namespace Content

def ofBytes (bs : ByteArray) : Content :=
  match String.fromUTF8? bs with
  | some t => .text t.toList
  | none => .bytes bs.toList

def toBytes : Content → ByteArray
  | .text t => (String.ofList t).toUTF8
  | .bytes bs => ⟨bs.toArray⟩

end Content

/-- What is at a place. -/
inductive Entry where
  | file (c : Content)
  | directory
  | link (target : Text)
deriving DecidableEq

/-- A file tree and the place from which relative paths are seen. -/
structure FileTree where
  /-- The place from which relative paths are seen. -/
  here : Place
  /-- The entries, each place at most once. -/
  entries : List (Place × Entry)
deriving DecidableEq

namespace FileTree

def get? (t : FileTree) (p : Place) : Option Entry :=
  if p = [] then some .directory else t.entries.lookup p

def putEntry (p : Place) (e : Entry) : List (Place × Entry) → List (Place × Entry)
  | [] => [(p, e)]
  | (q, f) :: rest => if q = p then (p, e) :: rest else (q, f) :: putEntry p e rest

def put (t : FileTree) (p : Place) (e : Entry) : FileTree :=
  { t with entries := putEntry p e t.entries }

/-- The tree without the places that satisfy `gone`. -/
def without (t : FileTree) (gone : Place → Bool) : FileTree :=
  { t with entries := t.entries.filter fun (p, _) => !gone p }

/-- The tree in which only the directories down to `here` are. -/
def empty (here : Place) : FileTree :=
  ⟨here, (List.range here.length).map fun n => (here.take (n + 1), .directory)⟩

private theorem lookup_putEntry (p q : Place) (e : Entry) (es : List (Place × Entry)) :
    (putEntry p e es).lookup q = if q = p then some e else es.lookup q := by
  induction es with
  | nil =>
    by_cases h : q = p
    · subst h; simp [putEntry]
    · simp [putEntry, List.lookup_cons, beq_eq_false_iff_ne.2 h, h]
  | cons x es ih =>
    obtain ⟨r, f⟩ := x
    by_cases hr : r = p
    · subst hr
      by_cases h : q = r
      · subst h; simp [putEntry]
      · simp [putEntry, List.lookup_cons, beq_eq_false_iff_ne.2 h, h]
    · by_cases hq : q = r
      · subst hq; simp [putEntry, hr]
      · simp only [putEntry, hr, if_false, List.lookup_cons, beq_eq_false_iff_ne.2 hq, ih]

theorem get?_put {t : FileTree} {p q : Place} {e : Entry} (hp : p ≠ []) :
    (t.put p e).get? q = if q = p then some e else t.get? q := by
  by_cases hq : q = []
  · subst hq; simp [get?, Ne.symm hp]
  · simp [get?, put, hq, lookup_putEntry]

end FileTree

end ClientGen
