import Mathlib.Data.List.Sort
import NoteGraph.Net.RowSort

/-!
# Short rows

A row of at most sixteen entries is not parted before its entries are put in, one behind the other,
so it is sorted by columns and entries of one column stay in their order. So a table keeps the
order of the entries of every cell in a row of at most sixteen entries (`keepsOrderAt_rowOrder`).
-/

namespace NoteGraph

namespace RowSort

variable {column : ℕ → ℕ}

/-! ### Sorted by columns, in their order -/

/-- An entry of a lower column, or of the same column but given before. -/
def IsBefore (column : ℕ → ℕ) (i j : ℕ) : Prop :=
  column i < column j ∨ (column i = column j ∧ i < j)

theorem pairwise_insert {entry : ℕ} {sorted : List ℕ} (h : sorted.Pairwise (IsBefore column))
    (hlt : ∀ other ∈ sorted, other < entry) :
    (insert column entry sorted).Pairwise (IsBefore column) := by
  induction sorted with
  | nil => exact List.pairwise_singleton _ _
  | cons other rest ih =>
    obtain ⟨hother, hrest⟩ := List.pairwise_cons.mp h
    obtain ⟨hltother, hltrest⟩ := List.forall_mem_cons.mp hlt
    rw [insert]
    split
    case isTrue hbelow =>
      refine List.pairwise_cons.mpr ⟨List.forall_mem_cons.mpr ⟨.inl hbelow, ?_⟩, h⟩
      intro next hnext
      rcases hother next hnext with hlower | ⟨hsame, -⟩
      · exact .inl (hbelow.trans hlower)
      · exact .inl (hsame ▸ hbelow)
    case isFalse habove =>
      refine List.pairwise_cons.mpr ⟨fun next hnext => ?_, ih hrest hltrest⟩
      rcases List.mem_cons.mp ((insert_perm entry rest).mem_iff.mp hnext) with rfl | hnext
      · unfold IsBefore
        omega
      · exact hother next hnext

theorem pairwise_foldl_insert {row : List ℕ} (hrow : row.Pairwise (· < ·)) :
    ∀ {sorted : List ℕ}, sorted.Pairwise (IsBefore column) →
      (∀ i ∈ sorted, ∀ j ∈ row, i < j) →
      (row.foldl (fun sorted entry => insert column entry sorted) sorted).Pairwise
        (IsBefore column) := by
  induction row with
  | nil => exact fun h _ => h
  | cons entry rest ih =>
    intro sorted h hlt
    obtain ⟨hentry, hrest⟩ := List.pairwise_cons.mp hrow
    refine ih hrest (pairwise_insert h fun i hi => hlt i hi entry List.mem_cons_self) ?_
    intro i hi j hj
    rcases List.mem_cons.mp ((insert_perm entry sorted).mem_iff.mp hi) with rfl | hi
    · exact hentry j hj
    · exact hlt i hi j (List.mem_cons_of_mem _ hj)

theorem partAll_of_le {depth first last : ℕ} {row : Array ℕ} (h : last - first ≤ 16) :
    partAll column depth first last row = row := by
  cases depth <;> rw [partAll, if_pos h]

/-- A short row is sorted by its columns, and entries of one column keep their order. -/
theorem pairwise_sort {row : List ℕ} (hrow : row.Pairwise (· < ·)) (hlength : row.length ≤ 16) :
    (sort column row).Pairwise (IsBefore column) := by
  rw [sort, partAll_of_le hlength]
  exact pairwise_foldl_insert hrow .nil (fun _ hi => nomatch hi)

/-! ### Row by row -/

/-- What holds in one row, and of any two entries that are not both in it, holds in the table. -/
theorem pairwise_flatten_byRow {rowOf : ℕ → ℕ} {entries rows : List ℕ} {f : List ℕ → List ℕ}
    {R : ℕ → ℕ → Prop} {row : ℕ} (hrows : rows.Nodup) (hf : ∀ some, (f some).Perm some)
    (hrow : (f (entries.filter fun entry => rowOf entry == row)).Pairwise R)
    (hR : ∀ i j, ¬(rowOf i = row ∧ rowOf j = row) → R i j) :
    ((byRow rowOf entries rows).map f).flatten.Pairwise R := by
  have hrowOf : ∀ {other i}, i ∈ f (entries.filter fun entry => rowOf entry == other) →
      rowOf i = other := fun hi =>
    beq_iff_eq.mp (List.mem_filter.mp ((hf _).mem_iff.mp hi)).2
  rw [byRow, List.map_map, List.pairwise_flatten, List.forall_mem_map, List.pairwise_map]
  constructor
  · intro other _
    by_cases hother : other = row
    · exact hother ▸ hrow
    · exact List.pairwise_of_forall_mem_list fun i hi j _ =>
        hR i j fun hboth => hother ((hrowOf hi).symm.trans hboth.1)
  · refine hrows.imp fun hne i hi j hj => hR i j fun hboth => hne ?_
    rw [← hrowOf hi, ← hrowOf hj, hboth.1, hboth.2]

end RowSort

theorem getD_of_getElem? {cells : List (ℕ × ℕ)} {cell : ℕ × ℕ} {i : ℕ}
    (h : cells[i]? = some cell) : cells.toArray.getD i (0, 0) = cell := by
  rw [Array.getD_eq_getD_getElem?, List.getElem?_toArray, h, Option.getD_some]

/-- In a row of at most sixteen entries every cell keeps the order of its entries. -/
theorem keepsOrderAt_rowOrder {cells : List (ℕ × ℕ)} {cell : ℕ × ℕ}
    (h : cells.countP (·.1 == cell.1) ≤ 16) : EntryOrder.KeepsOrderAt cells cell := by
  let cellOf (i : ℕ) : ℕ × ℕ := cells.toArray.getD i (0, 0)
  let row := (List.range cells.length).filter fun i => (cellOf i).1 == cell.1
  have hrow : row.Pairwise (· < ·) := List.pairwise_lt_range.filter _
  have hlength : row.length ≤ 16 := by
    have hcells : (List.range cells.length).map cellOf = cells :=
      List.ext_getElem (by simp) fun i _ hi => by simp [cellOf, Array.getD, hi]
    rwa [← hcells, List.countP_map, List.countP_eq_length_filter] at h
  have hapart : ∀ i j, ¬((cellOf i).1 = cell.1 ∧ (cellOf j).1 = cell.1) →
      cells[i]? = some cell → cells[j]? = some cell → i < j := by
    intro i j hnot hi hj
    exact absurd ⟨congrArg Prod.fst (getD_of_getElem? hi), congrArg Prod.fst (getD_of_getElem? hj)⟩
      hnot
  show (rowOrder cells).Pairwise _
  unfold rowOrder
  dsimp only
  split
  case isTrue =>
    rw [← List.map_id (RowSort.byRow _ _ _)]
    exact RowSort.pairwise_flatten_byRow List.nodup_range (fun some => .refl some)
      (hrow.imp fun hlt _ _ => hlt) hapart
  case isFalse =>
    refine RowSort.pairwise_flatten_byRow List.nodup_range RowSort.sort_perm ?_ hapart
    refine (RowSort.pairwise_sort hrow hlength).imp fun hbefore hi hj => ?_
    rw [RowSort.IsBefore, getD_of_getElem? hi, getD_of_getElem? hj] at hbefore
    omega

end NoteGraph
