import NoteGraph.Text.Quoted

/-!
# Dates

Days of the Gregorian calendar, carried back to the year 1. Days are numbered from the
first of January of that year, a Monday. The week of a day starts on the last Monday
that is not after it.
-/

namespace NoteGraph

/-- A day, named by its year, month and day of the month. -/
structure Date where
  year : Nat
  month : Nat
  day : Nat
  deriving DecidableEq

/-- Why a text names no date. -/
inductive DateError where
  | notIso (text : String)
  | yearOutOfRange (year : Nat)
  | monthOutOfRange
  | dayOutOfRange
  deriving DecidableEq

/-- What is reported of a text that names no date. -/
def DateError.message : DateError → String
  | notIso text => "Invalid isoformat string: " ++ Text.quoted text
  | yearOutOfRange year => "year " ++ toString year ++ " is out of range"
  | monthOutOfRange => "month must be in 1..12"
  | dayOutOfRange => "day is out of range for month"

namespace Date

/-! ### Months and years -/

/-- Every fourth year is a leap year, but of the full centuries only every fourth. -/
def isLeap (year : Nat) : Bool := year % 4 = 0 && (year % 100 ≠ 0 || year % 400 = 0)

/-- The days of a year. -/
def daysInYear (year : Nat) : Nat := if isLeap year then 366 else 365

/-- The days of a month. -/
def daysInMonth (year month : Nat) : Nat :=
  if month = 2 then if isLeap year then 29 else 28
  else if month = 4 || month = 6 || month = 9 || month = 11 then 30
  else 31

/-- The last year of the calendar. -/
def lastYear : Nat := 9999

/-- A day that the calendar has. -/
def Valid (d : Date) : Prop :=
  (1 ≤ d.year ∧ d.year ≤ lastYear) ∧ (1 ≤ d.month ∧ d.month ≤ 12) ∧
    1 ≤ d.day ∧ d.day ≤ daysInMonth d.year d.month

instance (d : Date) : Decidable d.Valid := by unfold Valid; infer_instance

/-- The day of some year, month and day of the month. -/
def ofParts (year month day : Nat) : Except DateError Date :=
  if year < 1 ∨ lastYear < year then .error (.yearOutOfRange year)
  else if month < 1 ∨ 12 < month then .error .monthOutOfRange
  else if day < 1 ∨ daysInMonth year month < day then .error .dayOutOfRange
  else .ok ⟨year, month, day⟩

/-! ### Counting days -/

/-- The days of the years before a year. -/
def daysBeforeYear (year : Nat) : Nat :=
  365 * (year - 1) + (year - 1) / 4 - (year - 1) / 100 + (year - 1) / 400

/-- The days of a year before a month. -/
def daysBeforeMonth (year month : Nat) : Nat :=
  (List.range (month - 1)).foldl (fun days m => days + daysInMonth year (m + 1)) 0

/-- The number of a day; the first of January of the year 1 is day 1. -/
def dayNumber (d : Date) : Nat :=
  daysBeforeYear d.year + daysBeforeMonth d.year d.month + d.day

/-- The day of a year that has a number in it, with at most `months` months to come. -/
def inYear (year : Nat) : Nat → Nat → Nat → Date
  | 0, month, n => ⟨year, month, n⟩
  | months + 1, month, n =>
    if n ≤ daysInMonth year month then ⟨year, month, n⟩
    else inYear year months (month + 1) (n - daysInMonth year month)

/-- The day with a number counted from the start of a year, at most `years` years on. -/
def fromYear : Nat → Nat → Nat → Date
  | 0, year, n => inYear year 11 1 n
  | years + 1, year, n =>
    if n ≤ daysInYear year then inYear year 11 1 n
    else fromYear years (year + 1) (n - daysInYear year)

/-- The days of four hundred years, after which the calendar repeats. -/
def daysInCycle : Nat := daysBeforeYear 401

/-- The day with a number. -/
def ofDayNumber (n : Nat) : Date :=
  let d := fromYear 400 1 ((n - 1) % daysInCycle + 1)
  { d with year := d.year + 400 * ((n - 1) / daysInCycle) }

/-! ### Weeks -/

/-- The day of the week, zero for a Monday. -/
def weekday (d : Date) : Nat := (d.dayNumber + 6) % 7

/-- The day before. -/
def yesterday (d : Date) : Date :=
  if 1 < d.day then { d with day := d.day - 1 }
  else if 1 < d.month then ⟨d.year, d.month - 1, daysInMonth d.year (d.month - 1)⟩
  else ⟨d.year - 1, 12, 31⟩

/-- The day some days before. -/
def daysAgo (d : Date) : Nat → Date
  | 0 => d
  | n + 1 => (d.daysAgo n).yesterday

/-- The Monday that starts the week of a day. -/
def weekStart (d : Date) : Date := d.daysAgo d.weekday

end Date

end NoteGraph
