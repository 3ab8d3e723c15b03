/-!
# Roles

The roles by which nodes take part in a net: as transitions, as transactions between
accounts, and as accounts of several kinds.
-/

namespace NoteGraph

/-- The role of a node whose heading gives none. -/
def individualRole : String := "individual"

/-- The role of a transaction. -/
def transactionRole : String := "Transaction"

/-- The roles of transitions. -/
def transitionRoles : List String := ["Transition", transactionRole]

/-- The five roles of accounts that the accounting equation tells apart. -/
def standardRoles : List String := ["Asset", "Liability", "Equity", "Revenue", "Expense"]

/-- The role of an account of no particular kind. -/
def plainAccountRole : String := "Account"

/-- The roles of accounts. -/
def accountRoles : List String := plainAccountRole :: standardRoles

/-- The roles whose accounts grow on the credit side. -/
def creditRoles : List String := ["Liability", "Equity", "Revenue"]

end NoteGraph
