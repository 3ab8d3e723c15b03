import NoteGraph.Json.Basic
import NoteGraph.Ledger.Period

/-!
# Ledgers

A ledger declares accounts with opening balances, lists transactions by date, and asks
for reports. A transaction moves an amount into an account; a transfer takes it out of a
second one. Lines that say none of this are kept as problems.
-/

namespace NoteGraph

namespace Ledger

/-- An account as it is declared. -/
structure Account (α : Type) where
  name : String
  opening : α
  deriving DecidableEq

/-- A dated amount, booked to an account. -/
structure Transaction (α : Type) where
  date : String
  description : String
  amount : α
  account : String
  /-- The account out of which a transfer takes the amount. -/
  target : Option String := none
  categories : List String := []
  /-- The number of the line that states it. -/
  line : Option Nat := none
  deriving DecidableEq

/-- Whether a transaction is a transfer between two accounts. -/
def Transaction.isTransfer {α : Type} (t : Transaction α) : Bool := t.target.isSome

/-- The forms of a chart. -/
inductive ChartKind where
  | pie
  | bar
  deriving DecidableEq

/-- The word for a form of chart. -/
def ChartKind.name : ChartKind → String
  | pie => "pie"
  | bar => "bar"

/-- The form of chart that a word names. -/
def ChartKind.ofName? (word : String) : Option ChartKind := [pie, bar].find? (·.name == word)

/-- A report that a ledger asks for. -/
inductive Directive where
  | balance
  | summary (categories : List String)
  | chart (kind : ChartKind) (subject : Period)
  deriving DecidableEq

/-- What is wrong with a line. -/
inductive Fault where
  | unknownDirective
  | unreadable
  deriving DecidableEq

/-- A line that says nothing of a ledger. -/
structure Problem where
  fault : Fault
  line : Nat
  text : String
  deriving DecidableEq

/-- What is reported of a line that says nothing of a ledger. -/
def Problem.message (p : Problem) : String :=
  let complaint := match p.fault with
    | .unknownDirective => "Unknown directive"
    | .unreadable => "Could not parse"
  "Line " ++ toString p.line ++ ": " ++ complaint ++ " \"" ++ p.text ++ "\""

end Ledger

/-- Accounts, transactions and requests for reports. -/
structure Ledger (α : Type) where
  accounts : List (Ledger.Account α) := []
  /-- By date; transactions of one day in the order of their lines. -/
  transactions : List (Ledger.Transaction α) := []
  directives : List Ledger.Directive := []
  problems : List Ledger.Problem := []
  deriving DecidableEq

namespace Ledger

/-! ### Categories -/

/-- The transactions of any of some categories; all of them if no category is given. -/
def ofCategories {α : Type} (categories : List String) (ts : List (Transaction α)) :
    List (Transaction α) :=
  if categories.isEmpty then ts else ts.filter fun t => t.categories.any categories.contains

/-! ### Fields -/

/-- The fields of a transaction. -/
def Transaction.toFields (t : Transaction Number) : List (String × Json) :=
  [("date", .string t.date), ("description", .string t.description),
   ("amount", .number t.amount), ("account", .string t.account),
   ("target_account", Json.optionalString t.target),
   ("categories", Json.strings t.categories)]

/-- The fields of a directive. -/
def Directive.toFields : Directive → List (String × Json)
  | balance => [("type", .string "balance")]
  | summary categories =>
    [("type", .string "summary"), ("categories", Json.strings categories)]
  | chart kind subject =>
    [("type", .string "chart"), ("kind", .string kind.name), ("subject", .string subject.name)]

/-- The fields of a ledger. -/
def toFields (l : Ledger Number) : List (String × Json) :=
  [("accounts", .array (l.accounts.map fun a =>
      .object [("name", .string a.name), ("initial_balance", .number a.opening)])),
   ("transactions", .array (l.transactions.map fun t => .object t.toFields)),
   ("directives", .array (l.directives.map fun d => .object d.toFields)),
   ("errors", Json.strings (l.problems.map Problem.message))]

/-- A table of transactions, column by column. -/
def table (ts : List (Transaction Number)) : List (String × Json) :=
  [("date", .array (ts.map fun t => .string t.date)),
   ("description", .array (ts.map fun t => .string t.description)),
   ("amount", .array (ts.map fun t => .number t.amount)),
   ("account", .array (ts.map fun t => .string t.account)),
   ("target_account", .array (ts.map fun t => Json.optionalString t.target)),
   ("categories", .array (ts.map fun t => Json.strings t.categories))]

end Ledger

end NoteGraph
