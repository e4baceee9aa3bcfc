-- SUMMARY: Dates and times, and their standard text.

/-!
# Dates and times

A date-time is a date, a time of day, both, or both with an offset from universal
time. `Datetime.text` writes it the way the format prescribes: fields of fixed
width, a `T` between date and time, and no fraction when it is zero.
-/

namespace Activation.Toml

/-- A day of the calendar. -/
structure Date where
  year : Nat
  month : Nat
  day : Nat
  deriving DecidableEq

/-- A time of day. -/
structure Time where
  hour : Nat
  minute : Nat
  second : Nat
  nanosecond : Nat
  deriving DecidableEq

/-- The distance from universal time. -/
inductive Offset
  | utc
  /-- So many minutes ahead of universal time. -/
  | minutes (ahead : Int)
  deriving DecidableEq

/-- A date-time. -/
inductive Datetime
  | date (date : Date)
  /-- A time of no particular day. -/
  | time (time : Time)
  /-- A time of a day, in no particular time zone. -/
  | localDatetime (date : Date) (time : Time)
  | offsetDatetime (date : Date) (time : Time) (offset : Offset)
  deriving DecidableEq

/-- Whether a year has a 29th of February. -/
def isLeapYear (year : Nat) : Bool :=
  year % 4 = 0 && (year % 100 ≠ 0 || year % 400 = 0)

/-- The number of days of a month. -/
def daysInMonth (year month : Nat) : Nat :=
  match month with
  | 2 => if isLeapYear year then 29 else 28
  | 4 | 6 | 9 | 11 => 30
  | _ => 31

/-- A number with zeros before it up to a width. -/
def padded (width n : Nat) : String :=
  let digits := Nat.toDigits 10 n
  String.ofList (List.replicate (width - digits.length) '0' ++ digits)

def Date.text (d : Date) : String :=
  padded 4 d.year ++ "-" ++ padded 2 d.month ++ "-" ++ padded 2 d.day

/-- The fraction of a second, with the point, or nothing when it is zero. -/
def fractionText (nanosecond : Nat) : String :=
  if nanosecond = 0 then ""
  else
    let digits := (padded 9 nanosecond).toList
    "." ++ String.ofList (digits.reverse.dropWhile (· = '0')).reverse

def Time.text (t : Time) : String :=
  padded 2 t.hour ++ ":" ++ padded 2 t.minute ++ ":" ++ padded 2 t.second ++
    fractionText t.nanosecond

def Offset.text : Offset → String
  | utc => "Z"
  | minutes ahead =>
    (if ahead < 0 then "-" else "+") ++ padded 2 (ahead.natAbs / 60) ++ ":" ++
      padded 2 (ahead.natAbs % 60)

/-- The text of a date-time. -/
def Datetime.text : Datetime → String
  | date d => d.text
  | time t => t.text
  | localDatetime d t => d.text ++ "T" ++ t.text
  | offsetDatetime d t o => d.text ++ "T" ++ t.text ++ o.text

end Activation.Toml
