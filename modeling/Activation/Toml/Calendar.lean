-- SUMMARY: Dates and times of a TOML document.
import Activation.Toml.Number

/-!
# Reading dates and times

Every field has a fixed number of digits. Days have to exist in their month, and a
second may be a leap second. Digits of a fraction beyond the ninth are dropped.
-/

namespace Activation.Toml

/-- A number of so many digits that lies between two bounds. -/
def field (width low high : Nat) : Scan Nat := do
  let mut n := 0
  for _ in List.range width do
    n := 10 * n + digitsValue 10 [← Scan.one isDecimal]
  if low ≤ n ∧ n ≤ high then return n else failure

def date : Scan Date := do
  let year ← field 4 0 9999
  Scan.char '-'
  let month ← field 2 1 12
  Scan.char '-'
  let day ← field 2 1 (daysInMonth year month)
  return { year, month, day }

/-- The fraction of a second, in nanoseconds. -/
def secondFraction : Scan Nat := do
  Scan.char '.'
  let first ← Scan.one isDecimal
  let shown := (first :: (← Scan.takeWhile isDecimal)).take 9
  return digitsValue 10 shown * Nat.pow 10 (9 - shown.length)

/-- A time of day. -/
def time : Scan Time := do
  let hour ← field 2 0 23
  Scan.char ':'
  let minute ← field 2 0 59
  Scan.char ':'
  let second ← field 2 0 60
  let nanosecond ← secondFraction <|> return 0
  return { hour, minute, second, nanosecond }

/-- An offset from universal time. -/
def offset : Scan Offset := do
  match ← Scan.one fun c => c = 'Z' || c = 'z' || c = '+' || c = '-' with
  | '+' => return .minutes (← distance)
  | '-' => return .minutes (-(← distance))
  | _ => return .utc
where
  /-- Hours and minutes, in minutes. -/
  distance : Scan Int := do
    let hours ← field 2 0 23
    Scan.char ':'
    let minutes ← field 2 0 59
    return 60 * hours + minutes

/-- A time that follows a date, with its offset if there is one. -/
def timeOfDate (d : Date) : Scan Datetime := do
  discard (Scan.one fun c => c = 'T' || c = 't' || c = ' ')
  let t ← time
  (return .offsetDatetime d t (← offset)) <|> return .localDatetime d t

/-- A date, a time or both. -/
def datetime : Scan Datetime :=
  (do
    let d ← date
    timeOfDate d <|> return .date d) <|>
  (return .time (← time))

/-- The date-time that a text stands for. All of the text has to belong to it. -/
def Datetime.ofText? (s : String) : Option Datetime :=
  Scan.whole datetime s

end Activation.Toml
