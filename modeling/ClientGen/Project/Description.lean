import ClientGen.Document.Display
import ClientGen.Json.Reader
import ClientGen.Project.Host
import ClientGen.Project.Url
import ClientGen.Text.Blank
import ClientGen.Yaml.Reader
/-!
# API descriptions

An API description is an object in JSON or YAML, in a file or at an address.
-/

namespace ClientGen

/-- The failure of reading a JSON text; `malformed` answers a text outside the grammar. -/
def Json.ReadError.failure (malformed : Failure) : Json.ReadError → Failure
  | .malformed => malformed
  | .tooManyDigits => Accident.tooManyDigits

def isRemote (location : Text) : Bool :=
  Text.startsWith "http://" location || Text.startsWith "https://" location

/-- Whether a text is read as JSON: its source is named so, or it begins with a brace. -/
def isJson (source t : Text) : Bool :=
  Text.endsWith ".json" source || (Text.trimStart t).head? = some '\x7b'

def parseDescription (source t : Text) : Except Failure Fields := do
  let v ←
    if isJson source t then
      (Json.read t).mapError (Json.ReadError.failure (DescriptionError.notJson source))
    else
      (Yaml.read t).mapError fun e =>
        if e = .malformed then DescriptionError.notYaml source else Accident.value e
  match v with
  | .object fields => return fields
  | v => throw (DescriptionError.notObject v.kindName : Failure)

/-- The number of times that a request may be sent elsewhere. -/
def maxRedirects : Nat := 20

def Reply.isRedirect (r : Reply) : Bool :=
  r.location.isSome && [301, 302, 303, 307, 308].contains r.status

variable {m : Type → Type} [Monad m] [Host m]

/-- The text at an address, sent elsewhere at most `redirects` times. Failures name the address
`asked`. -/
def fetchFrom (asked : Text) : (redirects : Nat) → Url → Task m Text
  | redirects, url => do
    let failure (reason : Text) : Failure := DescriptionError.unanswered asked reason
    match ← (Host.request url.toText : m (Except Text Reply)) with
    | .error reason => throw (failure reason)
    | .ok reply =>
      if reply.isRedirect then
        match redirects with
        | 0 => throw (failure "Exceeded maximum allowed redirects.")
        | redirects + 1 => fetchFrom asked redirects (url.behind (.ofText (reply.location.getD [])))
      else if 200 ≤ reply.status && reply.status < 300 then return reply.text
      else throw (DescriptionError.refused asked reply.status : Failure)

def readDescription (path : Path) : Task m Text := do
  if ← isFile path then readText (DescriptionError.unreadable path.toText) path
  else throw (DescriptionError.missing path.toText : Failure)

/-- The description at an address, or at a path as seen from the directory of the project. -/
def loadDescription (directory : Path) (location : Text) : Task m Fields := do
  if isRemote location then
    let t ← fetchFrom location maxRedirects (.ofText location)
    parseDescription location t
  else
    let path := directory / Path.ofText location
    let t ← readDescription path
    parseDescription path.toText t

end ClientGen
