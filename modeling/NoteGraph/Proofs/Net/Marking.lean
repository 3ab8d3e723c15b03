import NoteGraph.Net.Basic
import NoteGraph.Proofs.Keyed

/-!
# Markings as functions of places

A marking lists its places in an order that setting a place does not change, so that two
markings of the same places are equal as soon as every place holds the same in both.
-/

namespace NoteGraph

namespace Marking

variable {α : Type} [Zero α]

theorem get_set (m : Marking α) (place other : String) (value : α) :
    (m.set place value).get other = if other = place then value else m.get other := by
  rw [get, set, Keyed.lookup_put]
  split_ifs <;> rfl

theorem get_of_mem {m : Marking α} (hn : (m.map (·.1)).Nodup) {place : String} {value : α}
    (h : (place, value) ∈ m) : m.get place = value := by
  rw [get, Keyed.lookup_eq_some_of_mem hn h]
  rfl

/-- A marking is what its places hold. -/
theorem eq_map_get {m : Marking α} (hn : (m.map (·.1)).Nodup) :
    m = (m.map (·.1)).map fun place => (place, m.get place) :=
  Keyed.eq_map_lookup hn 0

theorem ext_get {m m' : Marking α} (hn : (m.map (·.1)).Nodup)
    (hkeys : m.map (·.1) = m'.map (·.1))
    (h : ∀ place ∈ m.map (·.1), m.get place = m'.get place) : m = m' := by
  calc m = (m.map (·.1)).map fun place => (place, m.get place) := eq_map_get hn
    _ = (m.map (·.1)).map fun place => (place, m'.get place) :=
      List.map_congr_left fun place hp => by rw [h place hp]
    _ = m' := by rw [hkeys, ← eq_map_get (hkeys ▸ hn)]

/-! ### Several places in turn -/

section Sweep

variable (change : α → α → α)

/-- A marking after each arc has changed what its place holds. -/
def sweep (m : Marking α) (arcs : List (String × α)) : Marking α :=
  arcs.foldl (fun m arc => m.set arc.1 (change (m.get arc.1) arc.2)) m

theorem map_fst_sweep {arcs : List (String × α)} :
    ∀ {m : Marking α}, (∀ arc ∈ arcs, arc.1 ∈ m.map (·.1)) →
      (sweep change m arcs).map (·.1) = m.map (·.1) := by
  induction arcs with
  | nil => intro m _; rfl
  | cons arc rest ih =>
    intro m h
    have hkeys : (m.set arc.1 (change (m.get arc.1) arc.2)).map (·.1) = m.map (·.1) :=
      Keyed.map_fst_put_of_mem _ (h arc List.mem_cons_self)
    refine (ih fun other ho => ?_).trans hkeys
    rw [hkeys]
    exact h other (List.mem_cons_of_mem _ ho)

theorem get_sweep {arcs : List (String × α)} (place : String) :
    ∀ {m : Marking α}, (arcs.map (·.1)).Nodup →
      (sweep change m arcs).get place =
        match arcs.lookup place with
        | some weight => change (m.get place) weight
        | none => m.get place := by
  induction arcs with
  | nil => intro m _; rfl
  | cons arc rest ih =>
    intro m hn
    rw [List.map_cons, List.nodup_cons] at hn
    refine (ih hn.2).trans ?_
    obtain ⟨name, weight⟩ := arc
    by_cases hp : place = name
    · subst hp
      rw [Keyed.lookup_eq_none_of_notMem hn.1, List.lookup_cons_self]
      simp [get_set]
    · rw [Keyed.lookup_cons_of_ne hp, get_set, if_neg hp]

end Sweep

end Marking

end NoteGraph
