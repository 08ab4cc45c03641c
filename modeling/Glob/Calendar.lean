import Glob.Text
/-!
# Dates and times

The dates and times of configuration files, and their two written forms: `toText`, as in a document,
and `construction`, as a message shows one that is inside a list or a table.
-/
namespace Glob

structure Date where
  year : Nat
  month : Nat
  day : Nat
  deriving DecidableEq, Repr

structure TimeOfDay where
  hour : Nat
  minute : Nat
  second : Nat
  microsecond : Nat
  deriving DecidableEq, Repr

def padded (width n : Nat) : Text :=
  let digits := Text.ofNat n
  List.replicate (width - digits.length) 0x30 ++ digits

def call (name : String) (arguments : List Text) : Text :=
  Text.of name ++ Text.of "(" ++ Text.join (Text.of ", ") arguments ++ Text.of ")"

namespace Date

def isLeap (year : Nat) : Bool := year % 4 == 0 && (year % 100 != 0 || year % 400 == 0)

def daysIn (year month : Nat) : Nat :=
  match month with
  | 4 | 6 | 9 | 11 => 30
  | 2 => if isLeap year then 29 else 28
  | _ => 31

/-- The calendar has the date: years count from 1. -/
def isValid (d : Date) : Bool :=
  1 ≤ d.year && 1 ≤ d.month && d.month ≤ 12 && 1 ≤ d.day && d.day ≤ daysIn d.year d.month

def toText (d : Date) : Text :=
  padded 4 d.year ++ Text.of "-" ++ padded 2 d.month ++ Text.of "-" ++ padded 2 d.day

def fields (d : Date) : List Text := [d.year, d.month, d.day].map Text.ofNat

def construction (d : Date) : Text := call "datetime.date" d.fields

end Date

namespace TimeOfDay

def toText (t : TimeOfDay) : Text :=
  padded 2 t.hour ++ Text.of ":" ++ padded 2 t.minute ++ Text.of ":" ++ padded 2 t.second ++
    if t.microsecond = 0 then [] else Text.of "." ++ padded 6 t.microsecond

/-- Hour and minute, and the smaller units as far as they say anything. -/
def fields (t : TimeOfDay) : List Text :=
  ([t.hour, t.minute] ++
    if t.microsecond ≠ 0 then [t.second, t.microsecond]
    else if t.second ≠ 0 then [t.second]
    else []).map Text.ofNat

def construction (t : TimeOfDay) : Text := call "datetime.time" t.fields

end TimeOfDay

/-- A date with a time, and how many minutes the clock is ahead of universal time, if that is
known. -/
structure DateTime where
  date : Date
  time : TimeOfDay
  offset : Option Int
  deriving DecidableEq, Repr

namespace DateTime

def offsetText (minutes : Int) : Text :=
  Text.of (if minutes < 0 then "-" else "+") ++ padded 2 (minutes.natAbs / 60) ++ Text.of ":" ++
    padded 2 (minutes.natAbs % 60)

def toText (d : DateTime) : Text :=
  d.date.toText ++ Text.of " " ++ d.time.toText ++
    match d.offset with
    | none => []
    | some minutes => offsetText minutes

/-- An offset as a number of seconds, after a whole number of days if it is negative. -/
def offsetConstruction (minutes : Int) : Text :=
  if minutes = 0 then Text.of "datetime.timezone.utc"
  else
    let seconds := 60 * minutes
    let delta :=
      if seconds < 0 then
        [Text.of "days=-1", Text.of "seconds=" ++ Text.ofInt (86400 + seconds)]
      else [Text.of "seconds=" ++ Text.ofInt seconds]
    call "datetime.timezone" [call "datetime.timedelta" delta]

def construction (d : DateTime) : Text :=
  call "datetime.datetime" (d.date.fields ++ d.time.fields ++
    match d.offset with
    | none => []
    | some minutes => [Text.of "tzinfo=" ++ offsetConstruction minutes])

end DateTime

end Glob
