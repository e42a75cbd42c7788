import ClientGen.Text.Basic
/-!
# Dates and times of day

Dates of the Gregorian calendar in the years 1 to 9999, and moments: a date, a time of day and
perhaps a distance from universal time.
-/

namespace ClientGen

structure Date where
  year : Nat
  /-- The month, from one. -/
  month : Nat
  /-- The day of the month, from one. -/
  day : Nat
deriving DecidableEq, Repr

/-- A date with a time of day. -/
structure Moment where
  date : Date
  hour : Nat
  minute : Nat
  second : Nat
  /-- The millionths of a second. -/
  micro : Nat
  /-- The minutes by which the time is ahead of universal time. -/
  ahead : Option Int
deriving DecidableEq, Repr

namespace Date

def isLeap (year : Nat) : Bool := year % 4 = 0 && (year % 100 ≠ 0 || year % 400 = 0)

def daysIn (year month : Nat) : Nat :=
  match month with
  | 2 => if isLeap year then 29 else 28
  | 4 | 6 | 9 | 11 => 30
  | _ => 31

def isValid (d : Date) : Bool :=
  1 ≤ d.year && d.year ≤ 9999 && 1 ≤ d.month && d.month ≤ 12 && 1 ≤ d.day &&
    d.day ≤ daysIn d.year d.month

/-- The number of days before the date in the calendar. -/
def dayNumber (d : Date) : Nat :=
  let y := d.year - 1
  let months := (List.range (d.month - 1)).foldl (fun n m => n + daysIn d.year (m + 1)) 0
  365 * y + y / 4 - y / 100 + y / 400 + months + (d.day - 1)

/-- The text `2020-01-31`. -/
def toText (d : Date) : Text :=
  Text.padded 10 4 d.year ++ "-" ++ Text.padded 10 2 d.month ++ "-" ++ Text.padded 10 2 d.day

end Date

namespace Moment

/-- Whether the calendar and the clock have the moment, less than a day away from universal time. -/
def isValid (m : Moment) : Bool :=
  m.date.isValid && m.hour < 24 && m.minute < 60 && m.second < 60 &&
    (m.ahead.map fun a => decide (a.natAbs < 24 * 60)).getD true

def seconds (m : Moment) : Int :=
  (m.date.dayNumber * 86400 + m.hour * 3600 + m.minute * 60 + m.second : Nat) -
    60 * m.ahead.getD 0

/-- Whether two moments are the same. One that knows its distance from universal time is never the
same as one that does not. -/
def same (a b : Moment) : Bool :=
  a.ahead.isSome == b.ahead.isSome && a.seconds = b.seconds && a.micro = b.micro

/-- The text `2020-01-31 10:00:00+01:00`. -/
def toText (m : Moment) : Text :=
  let two := Text.padded 10 2
  let fraction := if m.micro = 0 then [] else '.' :: Text.padded 10 6 m.micro
  let zone :=
    match m.ahead with
    | none => []
    | some a => (if a < 0 then '-' else '+') :: two (a.natAbs / 60) ++ ":" ++ two (a.natAbs % 60)
  m.date.toText ++ " " ++ two m.hour ++ ":" ++ two m.minute ++ ":" ++ two m.second ++ fraction ++ zone

end Moment

end ClientGen
