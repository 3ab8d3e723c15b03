import NoteGraph.Keyed
import NoteGraph.Ledger.Basic
import NoteGraph.Number.Quantity

/-!
# Balances and totals of a ledger

Transactions are booked in their order to balances that start as the accounts were
opened; an account that was not declared starts with nothing. Categories are totalled in
the same order, and a transaction without a category counts under a label of its own.
-/

namespace NoteGraph.Ledger

variable {α : Type} [Quantity α]

/-! ### Balances -/

/-- What is in each account, in the order in which accounts came up. -/
abbrev Balances (α : Type) := List (String × α)

/-- What is in an account. -/
def Balances.get (b : Balances α) (account : String) : α := (b.lookup account).getD 0

/-- The balances at the start; of several openings of an account the last counts. -/
def opening (accounts : List (Account α)) : Balances α :=
  accounts.foldl (fun b a => Keyed.put b a.name a.opening) []

/-- The balances after a transaction. -/
def Balances.post (b : Balances α) (t : Transaction α) : Balances α :=
  let b : Balances α := Keyed.put b t.account (b.get t.account + t.amount)
  match t.target with
  | some target => Keyed.put b target (b.get target - t.amount)
  | none => b

/-- A transaction with the balance of its account after it. -/
structure Row (α : Type) where
  transaction : Transaction α
  balance : α
  deriving DecidableEq

/-- The rows of some transactions, booked in turn. -/
def rowsFrom (b : Balances α) : List (Transaction α) → List (Row α)
  | [] => []
  | t :: rest => ⟨t, (b.post t).get t.account⟩ :: rowsFrom (b.post t) rest

/-! ### Categories -/

/-- The total of a category and the number of amounts in it. -/
structure CategoryTotal (α : Type) where
  category : String
  total : α
  count : Nat
  deriving DecidableEq

/-- The label of transactions without a category, unless another is given. -/
def uncategorized : String := "uncategorized"

/-- The amount of a transaction under each of its categories, or under the label. -/
def Transaction.entries (label : String) (t : Transaction α) : List (String × α) :=
  (if t.categories.isEmpty then [label] else t.categories).map fun c => (c, t.amount)

/-- The totals of all categories, in the order of their names. Amounts that are no numbers are
left out. -/
def categoryTotals (label : String) (ts : List (Transaction α)) : List (CategoryTotal α) :=
  let entries := ts.flatMap (·.entries label)
  (Keyed.names entries).map fun category =>
    let amounts := (Keyed.valuesOf entries category).filter Quantity.isNumber
    ⟨category, Quantity.total amounts, amounts.length⟩

/-! ### The balanced ledger -/

/-- A ledger's rows, final balances and category totals. -/
structure Computed (α : Type) where
  rows : List (Row α)
  balances : Balances α
  categories : List (CategoryTotal α)
  deriving DecidableEq

/-- Books a ledger and totals its categories. -/
def compute (l : Ledger α) (label : String) : Computed α :=
  { rows := rowsFrom (opening l.accounts) l.transactions
    balances := l.transactions.foldl Balances.post (opening l.accounts)
    categories := categoryTotals label l.transactions }

/-- The final balance of an account, if it came up. -/
def Computed.balanceOf? (c : Computed α) (account : String) : Option α :=
  c.balances.lookup account

/-- The fields of a row. -/
def Row.toFields (r : Row Number) : List (String × Json) :=
  [("date", .string r.transaction.date), ("description", .string r.transaction.description),
   ("amount", .number r.transaction.amount), ("account", .string r.transaction.account),
   ("categories", Json.strings r.transaction.categories),
   ("running_balance", .number r.balance)]

/-- The fields of a balanced ledger. -/
def Computed.toFields (c : Computed Number) : List (String × Json) :=
  [("rows", .array (c.rows.map fun r => .object r.toFields)),
   ("account_balances", .array (c.balances.map fun (name, balance) =>
      .object [("name", .string name), ("balance", .number balance)])),
   ("category_summaries", .array (c.categories.map fun t =>
      .object [("category", .string t.category), ("total", .number t.total),
        ("count", Json.int t.count)]))]

end NoteGraph.Ledger
