/-!
# The order of the entries of a table

A table is made from entries at its cells, and the entries of one cell are added up one after the
other. Sums that are rounded depend on the order, which is up to the maker of tables: it takes
every entry once, and may look at the rows and columns of all of them. Main condition: the entries
of every cell come in the order in which they were given.
-/

namespace NoteGraph

/-- An order in which the entries of a table are taken, from the row and the column of each: their
positions, each once. -/
class EntryOrder where
  order : List (Nat × Nat) → List Nat
  perm : ∀ cells, (order cells).Perm (List.range cells.length)

namespace EntryOrder

variable [EntryOrder]

/-- The entries of a table in the order in which they are taken. -/
def arrange {β : Type} (cell : β → Nat × Nat) (entries : List β) : List β :=
  (order (entries.map cell)).filterMap (entries[·]?)

/-- The entries of a cell are taken in the order in which they were given. -/
def KeepsOrderAt (cells : List (Nat × Nat)) (cell : Nat × Nat) : Prop :=
  (order cells).Pairwise fun i j => cells[i]? = some cell → cells[j]? = some cell → i < j

/-- The entries of every cell are taken in the order in which they were given. -/
def KeepsOrder (cells : List (Nat × Nat)) : Prop := ∀ cell ∈ cells, KeepsOrderAt cells cell

theorem KeepsOrder.at {cells : List (Nat × Nat)} (h : KeepsOrder cells) (cell : Nat × Nat) :
    KeepsOrderAt cells cell := by
  by_cases hmem : cell ∈ cells
  · exact h cell hmem
  · exact List.Pairwise.imp (fun _ hi => absurd (List.mem_of_getElem? hi) hmem)
      (List.pairwise_of_forall fun _ _ => trivial)

end EntryOrder

end NoteGraph
