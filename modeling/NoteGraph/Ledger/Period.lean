import NoteGraph.Calendar.IsoText

/-!
# Periods

Transactions are summed up by day, by the week that starts on a Monday, or by month. The
subject `categories` sums up by day as well.
-/

namespace NoteGraph.Ledger

/-- What transactions are summed up by. -/
inductive Period where
  | daily
  | weekly
  | monthly
  | categories
  deriving DecidableEq

namespace Period

/-- All periods. -/
def all : List Period := [daily, weekly, monthly, categories]

/-- The word for a period. -/
def name : Period → String
  | daily => "daily"
  | weekly => "weekly"
  | monthly => "monthly"
  | categories => "categories"

/-- The period that a word names. -/
def ofName? (word : String) : Option Period := all.find? (·.name == word)

end Period

/-- A word that names no period. -/
structure UnknownPeriod where
  word : String
  deriving DecidableEq

/-- What is reported of a word that names no period. -/
def UnknownPeriod.message (e : UnknownPeriod) : String :=
  "Unknown period '" ++ e.word ++ "'; expected one of categories, daily, weekly, monthly"

/-- The period that a word names, or the complaint that it names none. -/
def Period.ofName (word : String) : Except UnknownPeriod Period :=
  match ofName? word with
  | some period => .ok period
  | none => .error ⟨word⟩

/-! ### Keys -/

/-- The day of a date. -/
def dayKey (date : String) : String := date

/-- The first day of the week of a date. -/
def weekKey (date : String) : Except DateError String :=
  (Date.read date).map fun d => d.weekStart.isoText

/-- The year and month of a date. -/
def monthKey (date : String) : String := String.ofList (date.toList.take 7)

/-- What a date is counted under. -/
def Period.key (period : Period) (date : String) : Except DateError String :=
  match period with
  | daily | categories => .ok (dayKey date)
  | weekly => weekKey date
  | monthly => .ok (monthKey date)

end NoteGraph.Ledger
