import NoteGraph.Net.EntryOrder

/-!
# Tables by sorted rows

A table is kept row by row. If the columns of some row do not ascend, every row is sorted by its
columns: it is parted around the middle one of three entries as long as more than sixteen entries
are left, a part that would be parted too often goes through a heap, and in the end every entry is
put behind those that are not above it. Only the last step keeps entries of one column in their
order, so in longer rows they may change places.
-/

namespace NoteGraph

namespace RowSort

variable (column : Nat → Nat)

/-- Whether the entry at one place of a row has a lower column than that at another. -/
def isBelow (row : Array Nat) (i j : Nat) : Bool :=
  column (row.getD i 0) < column (row.getD j 0)

/-! ### Parting -/

/-- Which of three places has the middle column. -/
def middleOf (row : Array Nat) (i j k : Nat) : Nat :=
  if isBelow column row i j then
    if isBelow column row j k then j
    else if isBelow column row i k then k
    else i
  else if isBelow column row i k then i
  else if isBelow column row j k then k
  else j

/-- The first place from `i` on, among a number of places, that is not below the pivot. -/
def skipBelow (row : Array Nat) (pivot : Nat) : Nat → Nat → Nat
  | 0, i => i
  | left + 1, i => if isBelow column row i pivot then skipBelow row pivot left (i + 1) else i

/-- The last place up to `j` that is not above the pivot. -/
def skipAbove (row : Array Nat) (pivot : Nat) : Nat → Nat
  | 0 => 0
  | j + 1 => if isBelow column row pivot (j + 1) then skipAbove row pivot j else j + 1

/-- Parts the places from `i` up to `j` around the pivot in so many steps, and says where the
upper part begins. -/
def part (pivot : Nat) : Nat → Nat → Nat → Array Nat → Nat × Array Nat
  | 0, i, _, row => (i, row)
  | steps + 1, i, j, row =>
    let i := skipBelow column row pivot (row.size - i) i
    let j := skipAbove column row pivot (j - 1)
    if i < j then part pivot steps (i + 1) j (row.swapIfInBounds i j) else (i, row)

/-! ### Heaps -/

/-- Moves an entry of the heap at `first` up as long as its parent is below it. -/
def rise (first top : Nat) : Nat → Nat → Array Nat → Array Nat
  | 0, _, row => row
  | steps + 1, place, row =>
    let parent := (place - 1) / 2
    if top < place && isBelow column row (first + parent) (first + place) then
      rise first top steps parent (row.swapIfInBounds (first + place) (first + parent))
    else row

/-- Moves an entry of the heap at `first` down to a place without children, in the place of the
upper child each time, and says where it comes to stand. -/
def sink (first size : Nat) : Nat → Nat → Array Nat → Nat × Array Nat
  | 0, place, row => (place, row)
  | steps + 1, place, row =>
    if place < (size - 1) / 2 then
      let right := 2 * place + 2
      let child := if isBelow column row (first + right) (first + right - 1) then right - 1
        else right
      sink first size steps child (row.swapIfInBounds (first + place) (first + child))
    else if size % 2 = 0 && place = (size - 2) / 2 then
      (2 * place + 1, row.swapIfInBounds (first + place) (first + (2 * place + 1)))
    else (place, row)

/-- Puts the entry at a place of the heap at `first` where it belongs. -/
def settle (first size place : Nat) (row : Array Nat) : Array Nat :=
  let (bottom, row) := sink column first size size place row
  rise column first place size bottom row

/-- Sorts a part of a row by a heap. -/
def heapSort (first size : Nat) (row : Array Nat) : Array Nat :=
  let heap := (List.range (size / 2)).reverse.foldl
    (fun row parent => settle column first size parent row) row
  (List.range (size - 1)).reverse.foldl
    (fun row last => settle column first (last + 1) 0
      (row.swapIfInBounds first (first + (last + 1)))) heap

/-! ### Sorting -/

/-- Parts a row as long as more than sixteen entries are left and the depth allows. -/
def partAll : Nat → Nat → Nat → Array Nat → Array Nat
  | 0, first, last, row =>
    if last - first ≤ 16 then row else heapSort column first (last - first) row
  | depth + 1, first, last, row =>
    if last - first ≤ 16 then row
    else
      let middle := middleOf column row (first + 1) (first + (last - first) / 2) (last - 1)
      let (cut, row) := part column first (last - first) (first + 1) last
        (row.swapIfInBounds first middle)
      partAll depth first cut (partAll depth cut last row)

/-- Puts an entry behind those that are not above it. -/
def insert (entry : Nat) : List Nat → List Nat
  | [] => [entry]
  | other :: rest =>
    if column entry < column other then entry :: other :: rest else other :: insert entry rest

/-- A row sorted by its columns. -/
def sort (row : List Nat) : List Nat :=
  let parted := partAll column (2 * row.length.log2) 0 row.length row.toArray
  parted.toList.foldl (fun sorted entry => insert column entry sorted) []

/-- The entries of each of some rows, row by row. -/
def byRow (rowOf : Nat → Nat) (entries rows : List Nat) : List (List Nat) :=
  rows.map fun row => entries.filter fun entry => rowOf entry == row

/-! ### Every entry once -/

variable {column}

theorem swap_perm (row : Array Nat) (i j : Nat) : (row.swapIfInBounds i j).Perm row := by
  unfold Array.swapIfInBounds
  split
  · split
    · exact Array.swap_perm ..
    · exact .refl row
  · exact .refl row

theorem part_perm {pivot : Nat} (steps : Nat) :
    ∀ (i j : Nat) (row : Array Nat), (part column pivot steps i j row).2.Perm row := by
  induction steps with
  | zero => exact fun _ _ row => .refl row
  | succ steps ih =>
    intro i j row
    rw [part]
    split
    · exact (ih _ _ _).trans (swap_perm row _ _)
    · exact .refl row

theorem rise_perm {first top : Nat} (steps : Nat) :
    ∀ (place : Nat) (row : Array Nat), (rise column first top steps place row).Perm row := by
  induction steps with
  | zero => exact fun _ row => .refl row
  | succ steps ih =>
    intro place row
    rw [rise]
    split
    · exact (ih _ _).trans (swap_perm row _ _)
    · exact .refl row

theorem sink_perm {first size : Nat} (steps : Nat) :
    ∀ (place : Nat) (row : Array Nat), (sink column first size steps place row).2.Perm row := by
  induction steps with
  | zero => exact fun _ row => .refl row
  | succ steps ih =>
    intro place row
    rw [sink]
    split
    · exact (ih _ _).trans (swap_perm row _ _)
    · split
      · exact swap_perm row _ _
      · exact .refl row

theorem settle_perm (first size place : Nat) (row : Array Nat) :
    (settle column first size place row).Perm row :=
  (rise_perm size _ _).trans (sink_perm size place row)

theorem foldl_perm {step : Array Nat → Nat → Array Nat} (h : ∀ row i, (step row i).Perm row)
    (places : List Nat) : ∀ row : Array Nat, (places.foldl step row).Perm row := by
  induction places with
  | nil => exact fun row => .refl row
  | cons place rest ih => exact fun row => (ih (step row place)).trans (h row place)

theorem heapSort_perm (first size : Nat) (row : Array Nat) :
    (heapSort column first size row).Perm row := by
  refine (foldl_perm ?_ _ _).trans (foldl_perm ?_ _ row)
  · exact fun row last => (settle_perm _ _ _ _).trans (swap_perm row _ _)
  · exact fun row parent => settle_perm _ _ _ row

theorem partAll_perm (depth : Nat) :
    ∀ (first last : Nat) (row : Array Nat), (partAll column depth first last row).Perm row := by
  induction depth with
  | zero =>
    intro first last row
    rw [partAll]
    split
    · exact .refl row
    · exact heapSort_perm _ _ row
  | succ depth ih =>
    intro first last row
    rw [partAll]
    split
    · exact .refl row
    · exact (ih _ _ _).trans ((ih _ _ _).trans ((part_perm _ _ _ _).trans (swap_perm row _ _)))

theorem insert_perm (entry : Nat) (sorted : List Nat) :
    (insert column entry sorted).Perm (entry :: sorted) := by
  induction sorted with
  | nil => exact .refl _
  | cons other rest ih =>
    rw [insert]
    split
    · exact .refl _
    · exact (ih.cons other).trans (.swap entry other rest)

theorem foldl_insert_perm (row : List Nat) : ∀ sorted : List Nat,
    (row.foldl (fun sorted entry => insert column entry sorted) sorted).Perm (sorted ++ row) := by
  induction row with
  | nil => exact fun sorted => (List.append_nil sorted).symm ▸ .refl sorted
  | cons entry rest ih =>
    intro sorted
    refine (ih (insert column entry sorted)).trans (.trans ?_ List.perm_middle.symm)
    exact (insert_perm entry sorted).append_right rest

theorem sort_perm (row : List Nat) : (sort column row).Perm row :=
  (foldl_insert_perm _ []).trans (partAll_perm _ _ _ row.toArray).toList

theorem flatten_byRow_perm {rowOf : Nat → Nat} {rows : List Nat} (hrows : rows.Nodup) :
    ∀ {entries : List Nat}, (∀ entry ∈ entries, rowOf entry ∈ rows) →
      (byRow rowOf entries rows).flatten.Perm entries := by
  induction rows with
  | nil =>
    intro entries h
    rw [List.eq_nil_iff_forall_not_mem.mpr fun entry hentry => List.not_mem_nil (h entry hentry)]
    exact .refl _
  | cons row rest ih =>
    intro entries h
    obtain ⟨hrow, hrest⟩ := List.nodup_cons.mp hrows
    have hothers : byRow rowOf entries rest =
        byRow rowOf (entries.filter fun entry => !rowOf entry == row) rest := by
      refine List.map_congr_left fun other hother => ?_
      rw [List.filter_filter]
      refine List.filter_congr fun entry _ => ?_
      by_cases heq : rowOf entry = other
      · have hne : rowOf entry ≠ row := fun h => hrow (h ▸ heq ▸ hother)
        simp [heq, heq ▸ hne]
      · simp [heq]
    rw [byRow, List.map_cons, List.flatten_cons, ← byRow, hothers]
    refine ((ih hrest ?_).append_left _).trans (List.filter_append_perm _ entries)
    intro entry hentry
    obtain ⟨hmem, hne⟩ := List.mem_filter.mp hentry
    exact (List.mem_cons.mp (h entry hmem)).resolve_left (by simpa using hne)

theorem flatten_map_perm {f : List Nat → List Nat} (hf : ∀ row, (f row).Perm row)
    (rows : List (List Nat)) : (rows.map f).flatten.Perm rows.flatten := by
  induction rows with
  | nil => exact .refl _
  | cons row rest ih => exact (hf row).append ih

end RowSort

/-- The entries row by row, each row sorted by its columns unless all rows are. -/
def rowOrder (cells : List (Nat × Nat)) : List Nat :=
  let table := cells.toArray
  let column (entry : Nat) : Nat := (table.getD entry (0, 0)).2
  let height := cells.foldl (fun height cell => max height (cell.1 + 1)) 0
  let rows := RowSort.byRow (fun entry => (table.getD entry (0, 0)).1) (List.range cells.length)
    (List.range height)
  if rows.all fun row => (row.zip (row.drop 1)).all fun (i, j) => column i ≤ column j then
    rows.flatten
  else (rows.map (RowSort.sort column)).flatten

theorem le_foldl_max (cells : List (Nat × Nat)) : ∀ height : Nat,
    height ≤ cells.foldl (fun height cell => max height (cell.1 + 1)) height ∧
      ∀ cell ∈ cells, cell.1 < cells.foldl (fun height cell => max height (cell.1 + 1)) height := by
  induction cells with
  | nil => simp
  | cons cell rest ih =>
    intro height
    obtain ⟨hle, hlt⟩ := ih (max height (cell.1 + 1))
    rw [List.foldl_cons, List.forall_mem_cons]
    exact ⟨by omega, by omega, hlt⟩

theorem rowOrder_perm (cells : List (Nat × Nat)) :
    (rowOrder cells).Perm (List.range cells.length) := by
  have hrows : ∀ entry ∈ List.range cells.length,
      (cells.toArray.getD entry (0, 0)).1 ∈
        List.range (cells.foldl (fun height cell => max height (cell.1 + 1)) 0) := by
    intro entry hentry
    have hlt := List.mem_range.mp hentry
    have hcell : cells.toArray.getD entry (0, 0) = cells[entry] := by
      simp [Array.getD, hlt]
    rw [hcell, List.mem_range]
    exact (le_foldl_max cells 0).2 _ (List.getElem_mem hlt)
  have hparts := RowSort.flatten_byRow_perm List.nodup_range hrows
  unfold rowOrder
  dsimp only
  split
  · exact hparts
  · exact (RowSort.flatten_map_perm RowSort.sort_perm _).trans hparts

instance : EntryOrder := ⟨rowOrder, rowOrder_perm⟩

end NoteGraph
