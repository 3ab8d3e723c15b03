import NoteGraph.Ledger.Balance

/-!
# Income and expenses by period

Each transaction counts under one key of a period: an amount that is not negative as
income, a negative one without its sign as an expense.
-/

namespace NoteGraph.Ledger

variable {α : Type} [Quantity α]

/-- What came in and went out under one key. -/
structure PeriodTotal (α : Type) where
  key : String
  income : α
  expenses : α
  deriving DecidableEq

/-- What came in less what went out. -/
def PeriodTotal.net (p : PeriodTotal α) : α := p.income - p.expenses

/-- An amount as income. -/
def incomeOf (amount : α) : α := if Quantity.atMost 0 amount then amount else 0

/-- An amount as an expense. -/
def expenseOf (amount : α) : α := if Quantity.below amount 0 then -amount else 0

/-- The totals of some amounts with their keys, in the order of the keys. -/
def periodTotals (entries : List (String × α)) : List (PeriodTotal α) :=
  (Keyed.names entries).map fun key =>
    let amounts := Keyed.valuesOf entries key
    ⟨key, Quantity.total (amounts.map incomeOf), Quantity.total (amounts.map expenseOf)⟩

/-- The totals of transactions by a period, if each date has a key. -/
def summarize (period : Period) (ts : List (Transaction α)) :
    Except DateError (List (PeriodTotal α)) :=
  (ts.mapM fun t => (period.key t.date).map fun key => (key, t.amount)).map periodTotals

/-- The fields of the totals under a key. -/
def PeriodTotal.toFields (p : PeriodTotal Number) : List (String × Json) :=
  [("period", .string p.key), ("income", .number p.income), ("expenses", .number p.expenses),
   ("net", .number p.net)]

end NoteGraph.Ledger
