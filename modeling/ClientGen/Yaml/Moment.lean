import ClientGen.Document.Calendar
import ClientGen.Text.Word
/-!
# Dates and moments in YAML

A date is written `2020-01-31`. A moment has a time of day behind a `T` or blanks, and perhaps its
distance from universal time, of which `Z` is none.
-/

namespace ClientGen.Yaml

/-- The number of between `least` and `most` digits, and the text behind them. -/
def digitRun (least most : Nat) (t : Text) : Option (Nat × Text) :=
  let run := t.takeWhile Text.isDigit
  if least ≤ run.length && run.length ≤ most then
    some (run.foldl (fun n c => 10 * n + (c.toNat - '0'.toNat)) 0, t.drop run.length)
  else none

/-- The text behind a character. -/
def behind (c : Char) : Text → Option Text
  | [] => none
  | d :: t => if d = c then some t else none

/-- A date or a moment as it is written, with numbers that the calendar need not have. -/
inductive WrittenMoment where
  | date (d : Date)
  | moment (m : Moment)

/-- The blanks without line ends that the writing allows. -/
def isMomentBlank (c : Char) : Bool := c == ' ' || c == '\t'

/-- The millionths behind a point; digits beyond the sixth do not count. -/
def fraction (t : Text) : Nat × Text :=
  match t with
  | '.' :: rest =>
    let digits := rest.takeWhile Text.isDigit
    let six := (digits ++ List.replicate 6 '0').take 6
    (six.foldl (fun n c => 10 * n + (c.toNat - '0'.toNat)) 0, rest.drop digits.length)
  | _ => (0, t)

/-- The minutes ahead of universal time that end a moment. -/
def zone (t : Text) : Option (Option Int) :=
  match t.dropWhile isMomentBlank with
  | [] => if t = [] then some none else none
  | ['Z'] => some (some 0)
  | sign :: rest =>
    if sign == '+' || sign == '-' then do
      let (hours, rest) ← digitRun 1 2 rest
      let (minutes, rest) ←
        match rest with
        | ':' :: rest => digitRun 2 2 rest
        | rest => some (0, rest)
      let ahead : Int := 60 * hours + minutes
      if rest = [] then some (some (if sign == '-' then -ahead else ahead)) else none
    else none

/-- Reads a date or a moment. A line feed at the end does not count. -/
def WrittenMoment.read? (t : Text) : Option WrittenMoment := do
  let (year, t) ← digitRun 4 4 (Text.withoutLineEnd t)
  let (month, t) ← digitRun 1 2 (← behind '-' t)
  let (day, t) ← digitRun 1 2 (← behind '-' t)
  let date : Date := ⟨year, month, day⟩
  if t = [] then some (.date date)
  else
    let clock := t.dropWhile isMomentBlank
    let clock ←
      if clock.length < t.length then some clock
      else (behind 'T' t).orElse fun _ => behind 't' t
    let (hour, t) ← digitRun 1 2 clock
    let (minute, t) ← digitRun 2 2 (← behind ':' t)
    let (second, t) ← digitRun 2 2 (← behind ':' t)
    let (micro, t) := fraction t
    some (.moment ⟨date, hour, minute, second, micro, ← zone t⟩)

/-- Whether a plain scalar is read as a date or a moment: month and day of a date have two digits. -/
def isMoment (t : Text) : Bool :=
  match WrittenMoment.read? t with
  | some (.date _) => t.length == "2020-01-31".length
  | some (.moment _) => true
  | none => false

end ClientGen.Yaml
