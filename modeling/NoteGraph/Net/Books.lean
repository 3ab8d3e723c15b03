import NoteGraph.Json.Basic
import NoteGraph.Net.Basic
import NoteGraph.Number.Numeral
import NoteGraph.Role
import NoteGraph.Text.Blank

/-!
# Double-entry books

The transactions of a net post money to its places, which are accounts: an arc from an
account is a credit, an arc to an account is a debit. A posting on the normal side of an
account raises its balance, one on the other side lowers it.
-/

namespace NoteGraph

/-- The two sides of an account. -/
inductive Side where
  | debit
  | credit
  deriving DecidableEq

/-- The word for a side. -/
def Side.name : Side → String
  | debit => "debit"
  | credit => "credit"

/-- The side that a word names. -/
def Side.ofName? (word : String) : Option Side := [debit, credit].find? (·.name == word)

/-- The side on which an account grows. -/
def normalSide (role : Option String) : Side :=
  if role.any creditRoles.contains then .credit else .debit

/-- One when a posting on a side raises an account, minus one when it lowers it. -/
def postingSign (role : Option String) (side : Side) : Int :=
  if normalSide role = side then 1 else -1

/-- The amount that a text writes: a numeral, maybe between quotes, whose digits may be
grouped by commas and underscores. -/
def readAmount? (text : String) : Option Number.Binary64 :=
  let isQuote (c : Char) : Bool := c = '"' || c = '\''
  let bare := Text.dropWhileRight isQuote ((Text.trim text.toList).dropWhile isQuote)
  Number.readNumeral? (Text.trim (bare.filter fun c => c != ',' && c != '_'))

/-! ### Postings -/

/-- An amount posted to one side of an account. -/
structure Posting (α : Type) where
  account : String
  amount : α
  side : Side
  deriving DecidableEq

/-- What a posting adds to the balance of its account. -/
def Posting.change [Quantity α] (role : Option String) (p : Posting α) : α :=
  if normalSide role = p.side then p.amount else -p.amount

namespace Net

variable {α : Type} [Quantity α]

/-- The postings of a transaction: its credits, then its debits. -/
def postings [EntryOrder] (net : Net α) (transaction : String) : List (Posting α) :=
  (net.inputWeights transaction).map (fun (account, amount) => ⟨account, amount, .credit⟩) ++
    (net.outputWeights transaction).map fun (account, amount) => ⟨account, amount, .debit⟩

/-- The balance of the account of a posting after it, not rounded. -/
def balanceAfter (net : Net α) (m : Marking α) (p : Posting α) : α :=
  m.get p.account + p.change (net.role? p.account)

/-- The balances after one posting, the balance of its account rounded. -/
def post (net : Net α) (decimals : Int) (m : Marking α) (p : Posting α) : Marking α :=
  m.set p.account (Quantity.roundTo decimals (net.balanceAfter m p))

/-- The balances after a transaction. -/
def book [EntryOrder] (net : Net α) (decimals : Int) (m : Marking α) (transaction : String) :
    Marking α :=
  (net.postings transaction).foldl (net.post decimals) m

end Net

/-! ### Balance of transactions -/

/-- The totals of a transaction's two sides. -/
structure TransactionBalance (α : Type) where
  transaction : String
  debit : α
  credit : α
  balanced : Bool
  deriving DecidableEq

/-- By how much the debits exceed the credits. -/
def TransactionBalance.difference [Quantity α] (b : TransactionBalance α) : α :=
  b.debit - b.credit

/-- The sum of quantities in their order. -/
def total [Quantity α] (quantities : List α) : α := quantities.foldl (· + ·) 0

namespace Net

variable {α : Type} [Quantity α]

/-- The sum of the weights of a transition in one direction. -/
def totalWeight [EntryOrder] (net : Net α) (direction : Direction) (transition : String) : α :=
  total ((net.weights direction transition).map (·.2))

/-- The totals of a transaction; it is balanced if they differ by no more than
`epsilon`. -/
def balanceOf [EntryOrder] (net : Net α) (epsilon : α) (decimals : Int) (transaction : String) :
    TransactionBalance α :=
  let debit := Quantity.roundTo decimals (net.totalWeight .output transaction)
  let credit := Quantity.roundTo decimals (net.totalWeight .input transaction)
  ⟨transaction, debit, credit, Quantity.atMost (Quantity.magnitude (debit - credit)) epsilon⟩

/-- The role of a transaction. -/
def isTransaction (net : Net α) (transition : String) : Bool :=
  net.role? transition == some transactionRole

/-- The transactions of a net. -/
def transactions (net : Net α) : List String := net.transitionNames.filter net.isTransaction

/-- The totals of every transaction of a net. -/
def transactionBalances [EntryOrder] (net : Net α) (epsilon : α) (decimals : Int) :
    List (TransactionBalance α) :=
  net.transactions.map (net.balanceOf epsilon decimals)

end Net

/-! ### The accounting equation -/

/-- The totals of the accounts of each standard role and of the plain accounts, and what
remains of assets after liabilities, equity and revenue are taken off and expenses put
back. -/
structure AccountingSummary (α : Type) where
  totals : List (String × α)
  unclassified : α
  residual : α
  balanced : Bool
  deriving DecidableEq

namespace Net

variable {α : Type} [Quantity α]

/-- The total of the accounts of a role. -/
def roleTotal (net : Net α) (m : Marking α) (role : String) : α :=
  total ((net.placeNames.filter fun p => net.role? p == some role).map m.get)

/-- The total of the accounts of a role, rounded. -/
def roundedTotal (net : Net α) (decimals : Int) (m : Marking α) (role : String) : α :=
  Quantity.roundTo decimals (net.roleTotal m role)

/-- What remains of the rounded totals. -/
def remainder (net : Net α) (decimals : Int) (m : Marking α) : α :=
  let rounded := net.roundedTotal decimals m
  rounded "Asset" - rounded "Liability" - rounded "Equity" - rounded "Revenue" +
    rounded "Expense"

/-- The accounting equation of a marking. -/
def accountingSummary (net : Net α) (epsilon : α) (decimals : Int) (m : Marking α) :
    AccountingSummary α :=
  let rounded := net.roundedTotal decimals m
  let residual := Quantity.roundTo decimals (net.remainder decimals m)
  { totals := standardRoles.map fun role => (role, rounded role)
    unclassified := rounded plainAccountRole
    residual
    balanced := Quantity.atMost (Quantity.magnitude residual) epsilon }

end Net

/-- The fields of the totals of a transaction. -/
def TransactionBalance.toJson (b : TransactionBalance Number) : Json :=
  .object [("transaction_id", .string b.transaction), ("debit_total", .number b.debit),
    ("credit_total", .number b.credit), ("balanced", .bool b.balanced),
    ("difference", .number b.difference)]

/-- The fields of a summary. -/
def AccountingSummary.toJson (s : AccountingSummary Number) : Json :=
  .object [("totals", .object (s.totals.map fun (role, value) => (role, .number value))),
    ("unclassified", .number s.unclassified), ("residual", .number s.residual),
    ("balanced", .bool s.balanced)]

end NoteGraph
