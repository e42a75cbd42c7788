import ClientGen.Text.Digit
/-!
# Options of the command line

The first argument names a command and the others are its options. A long option may be cut short as
long as it is clear which one is meant, and its value may stand behind an equals sign.
-/

namespace ClientGen.CommandLine

inductive Switch where
  | help
  | directory
  | verbose
  | clean
  /-- Writes only the file of aliases. -/
  | initOnly
deriving DecidableEq

inductive Command where
  | init
  | update
  | check
deriving DecidableEq

def Command.ofName? (name : Text) : Option Command :=
  if name = "init" then some .init
  else if name = "update" then some .update
  else if name = "check" then some .check
  else none

abbrev Switches := List (Text × Switch)

def topSwitches : Switches := [("--help", .help)]

def Command.switches : Command → Switches
  | .update =>
    [("--help", .help), ("--project-dir", .directory), ("--verbose", .verbose), ("--clean", .clean),
      ("--init-only", .initOnly)]
  | .init | .check => [("--help", .help), ("--project-dir", .directory), ("--verbose", .verbose)]

/-- What an argument is. -/
inductive Argument where
  | value (t : Text)
  /-- An option, perhaps with a value. -/
  | switch (s : Switch) (given : Option Text)
  | unknown
  | ambiguous
  /-- The end of all options. -/
  | divider
deriving DecidableEq

/-- Whether a text behind a minus sign is a number. A line feed at its end does not count. -/
def isNumber (t : Text) : Bool :=
  match Text.splitOn '.' (Text.withoutLineEnd t) with
  | [whole] => whole ≠ [] && whole.all Text.isDecimal
  | [whole, places] => whole.all Text.isDecimal && places ≠ [] && places.all Text.isDecimal
  | _ => false

/-- The name before the first equals sign, and the value behind it. -/
def cutValue (t : Text) : Text × Option Text :=
  match Text.cut? ['='] t with
  | some (name, value) => (name, some value)
  | none => (t, none)

/-- What an argument with the option of one letter is, which asks for help. The letters behind it are
options, too; it takes no value. -/
def shortArgument (letters : Text) : Argument :=
  let rest := letters.dropWhile (· == 'h')
  let isRefused := rest.head? = some '=' || rest.head? = some '-'
  .switch .help (if isRefused then some rest else none)

/-- What an argument that begins with a minus sign and is not the name of an option is. -/
def looseArgument (t : Text) : Argument :=
  if isNumber (t.drop 1) || t.contains ' ' then .value t else .unknown

def Argument.ofText (switches : Switches) (t : Text) : Argument :=
  match t with
  | ['-', '-'] => .divider
  | '-' :: 'h' :: rest => shortArgument rest
  | '-' :: '-' :: _ =>
    let (name, given) := cutValue t
    match switches.find? fun (n, _) => n = name with
    | some (_, s) => .switch s given
    | none =>
      match switches.filter fun (n, _) => Text.startsWith name n with
      | [(_, s)] => .switch s given
      | [] => looseArgument t
      | _ => .ambiguous
  | '-' :: _ :: _ => looseArgument t
  | _ => .value t

/-- What a command is asked to do. -/
structure Request where
  command : Command
  directory : Text := ['.']
  /-- Whether the output is removed first. -/
  clean : Bool := false
  /-- Whether only the file of aliases is written. -/
  initOnly : Bool := false
  /-- Whether arguments were left over. -/
  surplus : Bool := false
deriving DecidableEq

/-- What a command line asks for. -/
inductive Reading where
  | run (r : Request)
  | help
  | invalid
deriving DecidableEq

def readOptions (r : Request) : List Argument → Reading
  | [] => if r.surplus then .invalid else .run r
  | .switch .directory none :: .value t :: rest => readOptions { r with directory := t } rest
  | .switch .directory (some t) :: rest => readOptions { r with directory := t } rest
  | .switch .directory none :: _ => .invalid
  | .switch _ (some _) :: _ => .invalid
  | .switch .help none :: _ => .help
  | .switch .verbose none :: rest => readOptions r rest
  | .switch .clean none :: rest => readOptions { r with clean := true } rest
  | .switch .initOnly none :: rest => readOptions { r with initOnly := true } rest
  | .value _ :: rest | .unknown :: rest => readOptions { r with surplus := true } rest
  | .divider :: _ | .ambiguous :: _ => .invalid

def beforeDivider (arguments : List Argument) : List Argument := arguments.takeWhile (· ≠ .divider)

def readCommand (surplus : Bool) (c : Command) (arguments : List Text) : Reading :=
  let arguments := arguments.map (Argument.ofText c.switches)
  if (beforeDivider arguments).contains .ambiguous then .invalid
  else readOptions { command := c, surplus } arguments

/-- What a command line asks for. `surplus` says whether options that do not exist were met. -/
def readArguments (surplus : Bool) : List Text → Reading
  | [] => .invalid
  | t :: rest =>
    match Argument.ofText topSwitches t with
    | .value name =>
      match Command.ofName? name with
      | some c => readCommand surplus c rest
      | none => .invalid
    | .switch _ none => .help
    | .unknown => readArguments true rest
    | .switch _ (some _) | .ambiguous | .divider => .invalid

def read (arguments : List Text) : Reading := readArguments false arguments

end ClientGen.CommandLine
