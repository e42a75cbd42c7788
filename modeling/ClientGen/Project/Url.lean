import ClientGen.Text.Case
import ClientGen.Text.Word
/-!
# Addresses

The parts of an address, and the address that a relative one means behind another.
-/

namespace ClientGen

/-- An address in its parts. -/
structure Url where
  /-- The scheme, empty in a relative address. -/
  scheme : Text
  /-- The host and what stands around it. -/
  authority : Option Text
  path : Text
  query : Option Text
  fragment : Option Text
deriving DecidableEq

namespace Url

/-- The parts of a text before and behind the first `c`. -/
def cutAt (c : Char) (t : Text) : Text × Option Text :=
  match Text.cut? [c] t with
  | some (before, rest) => (before, some rest)
  | none => (t, none)

/-- The scheme of an address, in lower case, and what stands behind it. -/
def cutScheme (t : Text) : Text × Text :=
  let isSchemeChar (c : Char) : Bool :=
    Text.isLetter c || Text.isDigit c || c == '+' || c == '-' || c == '.'
  match Text.cut? [':'] t with
  | some (c :: cs, rest) =>
    if Text.isLetter c && cs.all isSchemeChar then (Text.lower (c :: cs), rest) else ([], t)
  | _ => ([], t)

/-- Whether a character stands for itself in a path or a query. -/
def isPlain (c : Char) : Bool :=
  Text.isLetter c || Text.isDigit c || "-._~!$&'()*+,;=:@/%".toList.contains c

/-- A text with all other characters written as the numbers of their bytes. -/
def escape (t : Text) : Text :=
  t.flatMap fun c =>
    if isPlain c then [c]
    else
      (String.singleton c).toUTF8.toList.flatMap fun b =>
        '%' :: (Text.padded 16 2 b.toNat).map Char.toUpper

/-- The names of a path without points; two points take back the name before them. -/
def withoutPoints (names : List Text) : List Text :=
  (names.foldl
    (fun kept name =>
      if name = ['.'] then kept
      else if name = ['.', '.'] then if kept = [[]] then kept else kept.drop 1
      else name :: kept)
    ([] : List Text)).reverse

/-- The host without the number of the service that its scheme has anyway. -/
def withoutUsualService (scheme authority : Text) : Text :=
  let service : Text := if scheme = "https".toList then ":443" else ":80"
  (Text.beforeEnd? service authority).getD authority

def ofText (t : Text) : Url :=
  let (t, fragment) := cutAt '#' t
  let (t, query) := cutAt '?' t
  let (scheme, rest) := cutScheme t
  let (authority, path) :=
    match rest with
    | '/' :: '/' :: rest =>
      let host := rest.takeWhile (· ≠ '/')
      (some (withoutUsualService scheme (Text.lower host)), rest.drop host.length)
    | _ => (none, rest)
  let path :=
    if scheme = [] && authority = none then path
    else Text.join ['/'] (withoutPoints (Text.splitOn '/' path))
  ⟨scheme, authority, escape path, query.map escape, fragment⟩

def toText (u : Url) : Text :=
  let before (mark : Text) : Option Text → Text
    | some t => mark ++ t
    | none => []
  let scheme : Text := if u.scheme = [] then [] else u.scheme ++ ":"
  scheme ++ before "//" u.authority ++ u.path ++
    before "?" u.query ++ before "#" u.fragment

/-- The path of an address that is relative to another path. -/
def joinPaths (base path : Text) : Text :=
  let names :=
    match path with
    | '/' :: _ => Text.splitOn '/' path
    | _ =>
      let start := Text.splitOn '/' base
      let start := if start.getLast? = some [] then start else start.dropLast
      match start ++ Text.splitOn '/' path with
      | first :: rest => first :: rest.dropLast.filter (· ≠ []) ++ rest.getLast?.toList
      | [] => []
  let ends := match names.getLast? with
    | some last => last = ['.'] || last = ['.', '.']
    | none => false
  let joined := Text.join ['/'] (withoutPoints names ++ if ends then [[]] else [])
  if joined = [] then ['/'] else joined

/-- The address that `u` means in what is found at `base`. The part behind the number sign stays the
same unless `u` has one. -/
def behind (base u : Url) : Url :=
  let target : Url :=
    if u.scheme ≠ [] && u.authority.isSome then u
    else if u.scheme ≠ [] then { u with authority := base.authority }
    else if u.authority.isSome then { u with scheme := base.scheme }
    else if u.path = [] then
      { base with query := u.query.orElse fun _ => base.query, fragment := u.fragment }
    else { u with scheme := base.scheme, authority := base.authority, path := joinPaths base.path u.path }
  { target with fragment := target.fragment.orElse fun _ => base.fragment }

end Url

end ClientGen
