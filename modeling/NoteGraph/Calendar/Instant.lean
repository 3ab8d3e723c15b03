import NoteGraph.Calendar.IsoText
import NoteGraph.Number.Basic

/-!
# Points in time

A point in time is given by its seconds since the start of 1970, rounded to the nearest
microsecond and of two equally near to the even one. It is written as date and time of
day in universal time. Seconds are counted in 64 bits and years in 32 bits.
-/

namespace NoteGraph

/-- Why a number of seconds gives no point in time that can be written. -/
inductive InstantError where
  | undefined
  /-- More seconds than can be counted. -/
  | tooManySeconds
  /-- More years than can be counted. -/
  | tooManyYears
  | yearOutOfRange (year : Int)
  deriving DecidableEq

/-- What is reported of a number of seconds that gives no point in time. -/
def InstantError.message : InstantError → String
  | undefined => "Invalid value NaN (not a number)"
  | tooManySeconds => "timestamp out of range for platform time_t"
  | tooManyYears => "[Errno 75] Value too large for defined data type"
  | yearOutOfRange year => "year " ++ toString year ++ " is out of range"

/-- A number of microseconds since the start of 1970. -/
structure Instant where
  microseconds : Int
  deriving DecidableEq

namespace Instant

open Number (Binary64)

/-- The microseconds in a second. -/
def perSecond : Nat := 1000000

/-- The number of the first day of 1970. -/
def epochDay : Nat := Date.dayNumber ⟨1970, 1, 1⟩

/-- The whole microseconds in a part of a second, given in units. The part is scaled as a
floating-point number before it is rounded. -/
def partMicroseconds (units : Nat) : Nat :=
  match Binary64.ofUnitRatio false (units * perSecond) 1 with
  | .finite _ scaled _ => Number.roundDiv scaled Number.unitsPerOne
  | _ => 0

/-- The number of seconds that is just too large to be counted. -/
def secondsLimit : Nat := 0x8000000000000000

/-- The point in time after some microseconds, if its seconds can be counted. -/
def ofMicroseconds (n : Int) : Except InstantError Instant :=
  let seconds := n.fdiv perSecond
  if seconds < -(secondsLimit : Int) || (secondsLimit : Int) ≤ seconds then
    .error .tooManySeconds
  else .ok ⟨n⟩

/-- The point in time after some seconds. -/
def ofSeconds : Number → Except InstantError Instant
  | .int n => ofMicroseconds (n * perSecond)
  | .float (.finite negative units _) =>
    let whole := units / Number.unitsPerOne * perSecond
    let micro := whole + partMicroseconds (units % Number.unitsPerOne)
    ofMicroseconds (Binary64.signedUnits negative micro)
  | .float (.infinite _) => .error .tooManySeconds
  | .float .undefined => .error .undefined

/-- The number that years are counted up to, from zero and in each direction. -/
def yearsLimit : Nat := 0x80000000

/-- The year of a day, if it can be counted; the count starts at 1900. Day 1 is the first
of January of the year 1, and the calendar repeats after four hundred years. -/
def yearOfDay (day : Int) : Except InstantError Int :=
  let cycle := (day - 1).fdiv Date.daysInCycle
  let year := 400 * cycle + (Date.ofDayNumber ((day - 1).fmod Date.daysInCycle + 1).toNat).year
  let count := year - 1900
  if count < -(yearsLimit : Int) || (yearsLimit : Int) ≤ count then .error .tooManyYears
  else .ok (year.bmod (2 * yearsLimit))

/-- The day of a point in time. -/
def date (i : Instant) : Except InstantError Date := do
  let day := epochDay + (i.microseconds.fdiv perSecond).fdiv 86400
  let year ← yearOfDay day
  if year < 1 || (Date.lastYear : Int) < year then throw (.yearOutOfRange year)
  return Date.ofDayNumber day.toNat

/-- Date and time of day in universal time; whole seconds are written without a
fraction. -/
def text (i : Instant) : Except InstantError String := do
  let day ← i.date
  let time := ((i.microseconds.fdiv perSecond).fmod 86400).toNat
  let micro := (i.microseconds.fmod perSecond).toNat
  let fraction := if micro = 0 then "" else "." ++ Date.padded 6 micro
  return day.isoText ++ "T" ++ Date.padded 2 (time / 3600) ++ ":" ++
    Date.padded 2 (time / 60 % 60) ++ ":" ++ Date.padded 2 (time % 60) ++ fraction ++ "+00:00"

end Instant

end NoteGraph
