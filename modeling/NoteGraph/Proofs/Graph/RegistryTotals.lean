import Mathlib.Data.Finset.Card
import NoteGraph.Proofs.Graph.Registry

/-!
# The totals of a registry

A registration that replaces another takes the morph out of its indexes, but the keys it was
filed under stay there, and a registry counts keys. So its totals are those of all
registrations since it was cleared (`Registry.Registers.stats_eq`), not of the latest of each
morph.

Main statement: the totals are those of a fresh registry of the latest registrations exactly
if each node, relation and attribute that a replaced registration names is named by a standing
one (`Registry.stats_run_eq_iff`). The number of morphs is always right.
-/

namespace NoteGraph

/-- The number of different keys that some morphs list. -/
def countKeys (keysOf : Morph → List String) (ms : List Morph) : Nat :=
  (ms.flatMap keysOf).toFinset.card

/-- The numbers of some morphs and of the nodes, relations and attributes that they name. -/
def RegistryStats.ofMorphs (ms : List Morph) : RegistryStats where
  morphs := ms.length
  nodes := countKeys (fun m => [m.nodeId]) ms
  relations := countKeys (·.relationIds) ms
  attributes := countKeys (·.attributeIds) ms

/-! ### Standing registrations -/

/-- The latest registration of each morph, in the order in which the morphs first came. -/
def standing (ms : List Morph) : List Morph :=
  (ms.map (·.morphId)).eraseDups.filterMap (latest? ms)

section Standing

variable {ms : List Morph}

theorem mem_standing {m : Morph} : m ∈ standing ms ↔ latest? ms m.morphId = some m := by
  rw [standing, List.mem_filterMap]
  constructor
  · rintro ⟨morphId, -, hm⟩
    rwa [morphId_of_latest? hm]
  · intro hm
    exact ⟨m.morphId, List.mem_eraseDups.mpr (List.mem_map_of_mem (mem_of_latest? hm)), hm⟩

theorem standing_subset (ms : List Morph) : standing ms ⊆ ms :=
  fun _ hm => mem_of_latest? (mem_standing.mp hm)

theorem map_morphId_standing (ms : List Morph) :
    (standing ms).map (·.morphId) = (ms.map (·.morphId)).eraseDups := by
  refine map_morphId_filterMap fun morphId hmem => ?_
  obtain ⟨m, hm, rfl⟩ := List.mem_map.mp (List.mem_eraseDups.mp hmem)
  obtain ⟨m', hm'⟩ := exists_latest? hm
  exact ⟨m', hm', morphId_of_latest? hm'⟩

theorem nodup_standing (ms : List Morph) : ((standing ms).map (·.morphId)).Nodup := by
  rw [map_morphId_standing]
  exact nodup_eraseDups _

/-- Registrations of different morphs all stand. -/
theorem length_standing_of_nodup (h : (ms.map (·.morphId)).Nodup) :
    (standing ms).length = ms.length := by
  rw [← List.length_map (·.morphId), map_morphId_standing, length_eraseDups,
    List.toFinset_card_of_nodup h, List.length_map]

/-- Of the keys that are listed, those that a standing registration lists are all exactly if
they are as many. -/
theorem countKeys_standing_iff (keysOf : Morph → List String) :
    countKeys keysOf ms = countKeys keysOf (standing ms) ↔
      ∀ m ∈ ms, ∀ key ∈ keysOf m, ∃ m' ∈ standing ms, key ∈ keysOf m' := by
  have hsub : ((standing ms).flatMap keysOf).toFinset ⊆ (ms.flatMap keysOf).toFinset := by
    intro key hkey
    rw [List.mem_toFinset, List.mem_flatMap] at hkey ⊢
    obtain ⟨m, hm, hkey⟩ := hkey
    exact ⟨m, standing_subset ms hm, hkey⟩
  constructor
  · intro hcard m hm key hkey
    have hmem : key ∈ ((standing ms).flatMap keysOf).toFinset := by
      rw [Finset.eq_of_subset_of_card_le hsub (Nat.le_of_eq hcard)]
      exact List.mem_toFinset.mpr (List.mem_flatMap.mpr ⟨m, hm, hkey⟩)
    exact List.mem_flatMap.mp (List.mem_toFinset.mp hmem)
  · intro hlisted
    refine congrArg Finset.card (Finset.Subset.antisymm (fun key hkey => ?_) hsub)
    obtain ⟨m, hm, hkey⟩ := List.mem_flatMap.mp (List.mem_toFinset.mp hkey)
    exact List.mem_toFinset.mpr (List.mem_flatMap.mpr (hlisted m hm key hkey))

end Standing

/-! ### What is counted -/

theorem MorphIndex.Indexes.length_entries {x : MorphIndex} {keysOf : Morph → List String}
    {ms : List Morph} (h : x.Indexes keysOf ms) : x.entries.length = countKeys keysOf ms := by
  rw [← List.length_map (·.1)]
  exact (congrArg List.length h.keys_eq).trans (length_eraseDups _)

namespace Registry

variable {r : Registry} {ms : List Morph}

/-- A registry counts the morphs once and the keys of all registrations, whether or not they
stand. -/
theorem Registers.stats_eq (h : r.Registers ms) : r.stats =
    ⟨(standing ms).length, countKeys (fun m => [m.nodeId]) ms, countKeys (·.relationIds) ms,
      countKeys (·.attributeIds) ms⟩ := by
  have hmorphs : r.morphs.length = (standing ms).length := by
    rw [← List.length_map (·.1), h.keys_eq, ← map_morphId_standing, List.length_map]
  rw [stats, hmorphs, h.nodes.length_entries, h.relations.length_entries,
    h.attributes.length_entries]

/-- The totals of a fresh registry are right. -/
theorem stats_run_standing (ms : List Morph) :
    (({} : Registry).run ((standing ms).map .add)).stats =
      RegistryStats.ofMorphs (standing ms) := by
  have h := (registers_run ((standing ms).map .add)).stats_eq
  rw [registrations_map_add, length_standing_of_nodup (nodup_standing ms)] at h
  exact h

/-- **Totals**: a registry counts what a fresh one of the latest registrations does exactly if
all that was ever named since it was cleared is named still. -/
theorem stats_run_eq_iff (calls : List RegistryCall) :
    let ms := registrations calls
    let r := ({} : Registry).run calls
    let fresh := ({} : Registry).run ((standing ms).map .add)
    fresh.stats = RegistryStats.ofMorphs (standing ms) ∧ r.stats.morphs = fresh.stats.morphs ∧
      (r.stats = fresh.stats ↔ ∀ m ∈ ms,
        (∃ m' ∈ standing ms, m'.nodeId = m.nodeId) ∧
        (∀ id ∈ m.relationIds, ∃ m' ∈ standing ms, id ∈ m'.relationIds) ∧
        ∀ id ∈ m.attributeIds, ∃ m' ∈ standing ms, id ∈ m'.attributeIds) := by
  intro ms r fresh
  have hfresh : fresh.stats = RegistryStats.ofMorphs (standing ms) := stats_run_standing ms
  have hstats : r.stats = _ := (registers_run calls).stats_eq
  refine ⟨hfresh, by rw [hfresh, hstats]; rfl, ?_⟩
  rw [hfresh, hstats, RegistryStats.ofMorphs, RegistryStats.mk.injEq, countKeys_standing_iff,
    countKeys_standing_iff, countKeys_standing_iff]
  constructor
  · rintro ⟨-, hnodes, hrelations, hattributes⟩ m hm
    refine ⟨?_, hrelations m hm, hattributes m hm⟩
    obtain ⟨m', hm', hnode⟩ := hnodes m hm m.nodeId (List.mem_singleton_self _)
    exact ⟨m', hm', (List.mem_singleton.mp hnode).symm⟩
  · intro h
    refine ⟨rfl, fun m hm nodeId hnode => ?_, fun m hm => (h m hm).2.1, fun m hm => (h m hm).2.2⟩
    obtain ⟨m', hm', heq⟩ := (h m hm).1
    exact ⟨m', hm', by rw [List.mem_singleton.mp hnode, heq]; exact List.mem_singleton_self _⟩

/-- A relation that a morph no longer lists is counted still. -/
theorem stats_of_replaced :
    let calls : List RegistryCall := [.add ⟨"m", "n", "basic", ["r1"], []⟩,
      .add ⟨"m", "n", "basic", ["r2"], []⟩]
    (({} : Registry).run calls).stats ≠
      RegistryStats.ofMorphs (standing (registrations calls)) := by
  decide

end Registry

end NoteGraph
