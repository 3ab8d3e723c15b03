/-!
# Keyed lists

A list of entries, each a name and a value, in the order in which the names came. A name
that is set again keeps its place. Entries whose names repeat are taken together by
name, and names are put in ascending order.
-/

namespace NoteGraph

/-- Names in ascending order. -/
def sortNames (names : List String) : List String :=
  names.mergeSort fun a b => decide (a ≤ b)

namespace Keyed

variable {β : Type}

/-- The entries with the value of a name set, at its old place if it has one. -/
def put (entries : List (String × β)) (name : String) (value : β) : List (String × β) :=
  if entries.any (·.1 == name) then
    entries.map fun entry => if entry.1 == name then (name, value) else entry
  else entries ++ [(name, value)]

/-- The names of some entries, each once, in ascending order. -/
def names (entries : List (String × β)) : List String :=
  sortNames (entries.map (·.1)).eraseDups

/-- The values of a name, in their order. -/
def valuesOf (entries : List (String × β)) (name : String) : List β :=
  entries.filterMap fun entry => if entry.1 == name then some entry.2 else none

end Keyed

end NoteGraph
