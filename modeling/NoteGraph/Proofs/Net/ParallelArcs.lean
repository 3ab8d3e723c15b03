import Mathlib.Data.List.Sort
import NoteGraph.Net.Basic
import NoteGraph.Proofs.Keyed

/-!
# Parallel arcs

The weights of parallel arcs are added up in the order in which the table of the arcs takes its
entries. In any order they are the weights of these arcs, each once; where the table keeps the
order of its entries they come in the order of the arcs.
-/

namespace NoteGraph

/-! ### Arranged entries -/

namespace EntryOrder

theorem filterMap_getElem?_range {β : Type} (entries : List β) :
    (List.range entries.length).filterMap (entries[·]?) = entries := by
  induction entries with
  | nil => rfl
  | cons entry rest ih =>
    rw [List.length_cons, List.range_succ_eq_map, List.filterMap_cons]
    simp [List.filterMap_map, ih]

variable [EntryOrder] {β γ : Type} {cell : β → ℕ × ℕ} {entries : List β}

theorem arrange_perm (cell : β → ℕ × ℕ) (entries : List β) :
    (arrange cell entries).Perm entries := by
  have h := (perm (entries.map cell)).filterMap (entries[·]?)
  rwa [List.length_map, filterMap_getElem?_range] at h

/-- Entries that are all at one cell come in the order in which they were given. -/
theorem filterMap_arrange {c : ℕ × ℕ} (h : KeepsOrderAt (entries.map cell) c)
    {f : β → Option γ} (hcell : ∀ a ∈ entries, (f a).isSome = true → cell a = c) :
    (arrange cell entries).filterMap f = entries.filterMap f := by
  -- the positions of these entries ascend in both lists
  let picked (i : ℕ) : Bool := (entries[i]?.bind f).isSome
  have hpicked : ∀ positions : List ℕ,
      (positions.filterMap (entries[·]?)).filterMap f =
        (positions.filter picked).filterMap fun i => entries[i]?.bind f := by
    intro positions
    rw [List.filterMap_filterMap, List.filterMap_filter]
    refine List.filterMap_congr fun i _ => ?_
    by_cases hi : picked i = true
    · rw [if_pos hi]
    · rw [if_neg hi]
      exact Option.not_isSome_iff_eq_none.mp hi
  have hat : ∀ i, picked i = true → (entries.map cell)[i]? = some c := by
    intro i hi
    obtain ⟨value, hvalue⟩ := Option.isSome_iff_exists.mp hi
    obtain ⟨a, ha, hfa⟩ := Option.bind_eq_some_iff.mp hvalue
    rw [List.getElem?_map, ha, Option.map_some,
      hcell a (List.mem_of_getElem? ha) (Option.isSome_of_eq_some hfa)]
  have hascend : ((order (entries.map cell)).filter picked).Pairwise (· < ·) :=
    (h.filter picked).imp_of_mem fun hi hj hlt =>
      hlt (hat _ (List.mem_filter.mp hi).2) (hat _ (List.mem_filter.mp hj).2)
  have hrange : ((List.range (entries.map cell).length).filter picked).Pairwise (· < ·) :=
    List.pairwise_lt_range.filter picked
  have hperm := (perm (entries.map cell)).filter picked
  rw [arrange, hpicked, hperm.eq_of_pairwise' hascend hrange, ← hpicked, List.length_map,
    filterMap_getElem?_range]

end EntryOrder

/-! ### Weights of parallel arcs -/

namespace Net

variable {α : Type} {net net' : Net α} {direction : Direction} {place t : String}

/-- The weights of the arcs between a place and a transition in one direction, in the order of the
arcs. -/
def arcWeights (net : Net α) (direction : Direction) (place transition : String) : List α :=
  net.arcs.filterMap fun a =>
    if a.direction = direction && a.place == place && a.transition == transition then
      some a.weight
    else none

theorem arcWeights_eq (net : Net α) (direction : Direction) (place t : String) :
    net.arcWeights direction place t = weightsBetween (net.arcsIn direction) place t := by
  rw [arcWeights, weightsBetween, arcsIn, List.filterMap_filter]
  refine List.filterMap_congr fun a _ => ?_
  by_cases h : a.direction = direction <;> simp [h]

theorem arcWeights_ne_nil_iff : net.arcWeights direction place t ≠ [] ↔
    ∃ a ∈ net.arcs, a.direction = direction ∧ a.place = place ∧ a.transition = t := by
  simp [arcWeights, List.filterMap_eq_nil_iff, and_assoc]

theorem mem_arcWeights {weight : α} (h : weight ∈ net.arcWeights direction place t) :
    ∃ a ∈ net.arcs, a.weight = weight := by
  obtain ⟨a, ha, hw⟩ := List.mem_filterMap.mp h
  split_ifs at hw
  exact ⟨a, ha, Option.some.inj hw⟩

variable [EntryOrder]

/-- The weights of the arcs between a place and a transition in one direction, in the order in
which they are added up. -/
def addends (net : Net α) (direction : Direction) (place transition : String) : List α :=
  weightsBetween (net.arranged direction) place transition

theorem addends_perm (net : Net α) (direction : Direction) (place t : String) :
    (net.addends direction place t).Perm (net.arcWeights direction place t) := by
  rw [arcWeights_eq]
  exact (EntryOrder.arrange_perm net.cellOf (net.arcsIn direction)).filterMap _

/-- Where the table keeps the order of the entries of a cell, weights are added up in the order
of the arcs. -/
theorem addends_eq (h : EntryOrder.KeepsOrderAt (net.cells direction)
    (net.cellAt direction place t)) :
    net.addends direction place t = net.arcWeights direction place t := by
  rw [arcWeights_eq]
  refine EntryOrder.filterMap_arrange h fun a ha hsome => ?_
  have hdirection : a.direction = direction := of_decide_eq_true (List.mem_filter.mp ha).2
  simp only [Option.isSome_ite, Bool.and_eq_true, beq_iff_eq] at hsome
  rw [cellOf, hdirection, hsome.1, hsome.2]

theorem addends_ne_nil_iff : net.addends direction place t ≠ [] ↔
    ∃ a ∈ net.arcs, a.direction = direction ∧ a.place = place ∧ a.transition = t := by
  rw [← arcWeights_ne_nil_iff, ← List.length_pos_iff, ← List.length_pos_iff,
    (net.addends_perm direction place t).length_eq]

theorem mem_addends {weight : α} (h : weight ∈ net.addends direction place t) :
    ∃ a ∈ net.arcs, a.weight = weight :=
  mem_arcWeights ((net.addends_perm direction place t).mem_iff.mp h)

/-! ### Summed weights -/

/-- The sum of some weights in their order, if there are any. -/
def sum? [Quantity α] : List α → Option α
  | [] => none
  | first :: rest => some (rest.foldl (· + ·) first)

variable [Quantity α]

theorem weights_eq_filterMap (net : Net α) (direction : Direction) (t : String) :
    net.weights direction t = net.placeNames.filterMap fun place =>
      (sum? (net.addends direction place t)).map fun weight => (place, weight) := by
  rw [weights, placeNames, List.filterMap_map]
  refine List.filterMap_congr fun p _ => ?_
  rw [Function.comp_apply, addends]
  cases weightsBetween (net.arranged direction) p.name t <;> rfl

theorem map_fst_weights (net : Net α) (direction : Direction) (t : String) :
    ((net.weights direction t).map (·.1)).Sublist net.placeNames := by
  rw [weights_eq_filterMap]
  induction net.placeNames with
  | nil => exact List.Sublist.slnil
  | cons place rest ih =>
    rw [List.filterMap_cons]
    cases sum? (net.addends direction place t) with
    | none => exact ih.cons _
    | some weight => exact ih.cons_cons _

theorem nodup_weights (hn : net.placeNames.Nodup) (direction : Direction) (t : String) :
    ((net.weights direction t).map (·.1)).Nodup :=
  hn.sublist (net.map_fst_weights direction t)

theorem mem_weights {weight : α} : (place, weight) ∈ net.weights direction t ↔
    place ∈ net.placeNames ∧ ∃ first rest,
      net.addends direction place t = first :: rest ∧ weight = rest.foldl (· + ·) first := by
  simp only [weights_eq_filterMap, List.mem_filterMap, Option.map_eq_some_iff, Prod.mk.injEq]
  constructor
  · rintro ⟨p, hp, w, hw, rfl, rfl⟩
    cases haddends : net.addends direction p t with
    | nil => simp [haddends, sum?] at hw
    | cons first rest =>
      rw [haddends] at hw
      exact ⟨hp, first, rest, rfl, (Option.some.inj hw).symm⟩
  · rintro ⟨hp, first, rest, haddends, rfl⟩
    exact ⟨place, hp, _, by rw [haddends]; rfl, rfl, rfl⟩

/-- A transition has, for every place with an arc, the sum of the weights of the arcs. -/
theorem lookup_weights (hn : net.placeNames.Nodup)
    (hplaces : ∀ a ∈ net.arcs, a.place ∈ net.placeNames) (direction : Direction)
    (place t : String) :
    (net.weights direction t).lookup place = sum? (net.addends direction place t) := by
  cases hw : net.addends direction place t with
  | nil =>
    refine Keyed.lookup_eq_none_of_notMem fun hmem => ?_
    obtain ⟨⟨other, weight⟩, harc, rfl⟩ := List.mem_map.mp hmem
    obtain ⟨-, first, rest, hfirst, -⟩ := mem_weights.mp harc
    rw [hw] at hfirst
    cases hfirst
  | cons first rest =>
    have hplace : place ∈ net.placeNames := by
      obtain ⟨a, ha, -, rfl, -⟩ := addends_ne_nil_iff.mp (hw ▸ List.cons_ne_nil first rest)
      exact hplaces a ha
    exact Keyed.lookup_eq_some_of_mem (nodup_weights hn direction t)
      (mem_weights.mpr ⟨hplace, first, rest, hw, rfl⟩)

/-- Summed weights depend only on the names of the places and transitions and on the arcs. -/
theorem weights_congr (hp : net.placeNames = net'.placeNames)
    (ht : net.transitionNames = net'.transitionNames) (ha : net.arcs = net'.arcs) :
    net.weights = net'.weights := by
  have hcell : net.cellOf = net'.cellOf := by
    funext a
    simp only [cellOf, cellAt, hp, ht]
  funext direction t
  simp only [weights_eq_filterMap, addends, arranged, arcsIn, hcell, hp, ha]

end Net

end NoteGraph
