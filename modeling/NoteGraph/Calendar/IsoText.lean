import NoteGraph.Calendar.Date
import NoteGraph.Number.Numeral

/-!
# Dates in text

A date is written as year, month and day with dashes, such as `2024-01-31`. Texts may
also leave out both dashes, or name a week of the year and a day of it, `2024-W05-3` or
`2024W053`; without a day the week's Monday is meant. The first week of a year is the
one with the fourth of January.
-/

namespace NoteGraph.Date

open Number (isPlainDigit digitsValue)

/-- A number with zeros before it up to a width. -/
def padded (width n : Nat) : String :=
  String.ofList ((Nat.toDigits 10 n).leftpad width '0')

/-- The text of a date. -/
def isoText (d : Date) : String :=
  padded 4 d.year ++ "-" ++ padded 2 d.month ++ "-" ++ padded 2 d.day

/-! ### Reading -/

/-- The number that the first `count` characters write, and the rest. -/
def cutDigits? (count : Nat) (cs : List Char) : Option (Nat × List Char) :=
  let run := cs.take count
  if run.length = count && run.all isPlainDigit then some (digitsValue run, cs.drop count)
  else none

/-- The rest of a text after a dash, if there is to be one. -/
def cutDash? (dashed : Bool) (cs : List Char) : Option (List Char) :=
  if dashed then if cs.head? = some '-' then some cs.tail else none else some cs

/-- The day of a month that a text names after a year. -/
def readMonthDay? (dashed : Bool) (cs : List Char) : Option (Nat × Nat) := do
  let (month, rest) ← cutDigits? 2 cs
  let (day, _) ← cutDigits? 2 (← cutDash? dashed rest)
  return (month, day)

/-- The day of a week that a text names after a year and a `W`. -/
def readWeekDay? (dashed : Bool) (cs : List Char) : Option (Nat × Nat) := do
  let (week, rest) ← cutDigits? 2 cs
  if rest.isEmpty then return (week, 1)
  let (day, _) ← cutDigits? 1 (← cutDash? dashed rest)
  return (week, day)

/-- The weeks of a year: 53 if it starts on a Thursday, or on a Wednesday and is a leap
year. -/
def weeksInYear (year : Nat) : Nat :=
  let first := weekday ⟨year, 1, 1⟩
  if first = 3 || (first = 2 && isLeap year) then 53 else 52

/-- The date of a day of a week of a year. -/
def ofWeek? (year week day : Nat) : Option Date :=
  if 1 ≤ year && 1 ≤ week && week ≤ weeksInYear year && 1 ≤ day && day ≤ 7 then
    let monday := (weekStart ⟨year, 1, 4⟩).dayNumber
    some (ofDayNumber (monday + 7 * (week - 1) + (day - 1)))
  else none

/-- The date that a text names; its length in bytes is that of one of the forms, and what
follows the day is not looked at. -/
def read (text : String) : Except DateError Date :=
  let size := text.utf8ByteSize
  if size = 7 || size = 8 || size = 10 then
    match cutDigits? 4 text.toList with
    | none => .error (.notIso text)
    | some (year, rest) =>
      let dashed := rest.head? = some '-'
      let rest := if dashed then rest.tail else rest
      if rest.head? = some 'W' then
        match (readWeekDay? dashed rest.tail).bind fun (week, day) => ofWeek? year week day with
        | some d => ofParts d.year d.month d.day
        | none => .error (.notIso text)
      else
        match readMonthDay? dashed rest with
        | some (month, day) => ofParts year month day
        | none => .error (.notIso text)
  else .error (.notIso text)

end NoteGraph.Date
