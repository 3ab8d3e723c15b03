import NoteGraph.Net.Topology
import NoteGraph.Proofs.Net.Building

/-!
# Nets of one shape

The report on the shape of a net looks at its places, at its transitions and at which of them
are linked by an arc, and in which direction. How many arcs link them, in which order and with
which weights makes no difference.
-/

namespace NoteGraph

namespace Net

variable {α : Type} {net net' : Net α}

/-- Some arc links a place and a transition in a direction. -/
def IsLinked (net : Net α) (direction : Direction) (place transition : String) : Prop :=
  ∃ a ∈ net.arcs, a.direction = direction ∧ a.place = place ∧ a.transition = transition

/-- Two nets have the same places and transitions, and the same of them are linked. -/
structure SameShape (net net' : Net α) : Prop where
  places : net.places = net'.places
  transitions : net.transitions = net'.transitions
  linked : ∀ direction place transition,
    net.IsLinked direction place transition ↔ net'.IsLinked direction place transition

theorem any_place_iff {place : String} : net.arcs.any (·.place == place) = true ↔
    ∃ direction t, net.IsLinked direction place t := by
  simp only [List.any_eq_true, beq_iff_eq, IsLinked]
  constructor
  · rintro ⟨a, ha, rfl⟩
    exact ⟨a.direction, a.transition, a, ha, rfl, rfl, rfl⟩
  · rintro ⟨-, -, a, ha, -, rfl, -⟩
    exact ⟨a, ha, rfl⟩

theorem hasArc_iff {direction : Direction} {t : String} :
    net.hasArc direction t = true ↔ ∃ place, net.IsLinked direction place t := by
  simp only [hasArc, List.any_eq_true, Bool.and_eq_true, decide_eq_true_eq, beq_iff_eq, IsLinked]
  constructor
  · rintro ⟨a, ha, hdirection, ht⟩
    exact ⟨a.place, a, ha, hdirection, rfl, ht⟩
  · rintro ⟨-, a, ha, hdirection, -, ht⟩
    exact ⟨a, ha, hdirection, ht⟩

theorem mem_flowsTo {place target : String} : target ∈ net.flowsTo place ↔
    target ∈ net.placeNames ∧
      ∃ t, net.IsLinked .output target t ∧ net.IsLinked .input place t := by
  simp only [flowsTo, List.mem_filter, List.any_eq_true, Bool.and_eq_true, decide_eq_true_eq,
    beq_iff_eq, IsLinked]
  refine and_congr_right fun _ => ⟨?_, ?_⟩
  · rintro ⟨a, ha, ⟨hout, hplace⟩, c, ⟨hc, hin, hfrom⟩, heq⟩
    exact ⟨a.transition, ⟨a, ha, hout, hplace, rfl⟩, c, hc, hin, hfrom, heq⟩
  · rintro ⟨t, ⟨a, ha, hout, hplace, rfl⟩, c, hc, hin, hfrom, heq⟩
    exact ⟨a, ha, ⟨hout, hplace⟩, c, ⟨hc, hin, hfrom⟩, heq⟩

namespace SameShape

theorem placeNames_eq (h : SameShape net net') : net.placeNames = net'.placeNames := by
  rw [placeNames, placeNames, h.places]

theorem hasArc_eq (h : SameShape net net') : net.hasArc = net'.hasArc := by
  funext direction t
  rw [Bool.eq_iff_iff, hasArc_iff, hasArc_iff]
  exact exists_congr fun place => h.linked direction place t

theorem flowsTo_eq (h : SameShape net net') : net.flowsTo = net'.flowsTo := by
  funext place
  have hmem : ∀ target, target ∈ net.flowsTo place ↔ target ∈ net'.flowsTo place := by
    intro target
    simp only [mem_flowsTo, h.placeNames_eq, h.linked]
  -- both are filtered from the same names, so they agree as lists
  rw [flowsTo, flowsTo, h.placeNames_eq]
  refine List.filter_congr fun target htarget => Bool.eq_iff_iff.mpr ?_
  have hiff := hmem target
  rwa [flowsTo, flowsTo, List.mem_filter, List.mem_filter, h.placeNames_eq,
    and_iff_right htarget, and_iff_right htarget] at hiff

theorem flowFrom_eq (h : SameShape net net') (fuel : ℕ) :
    ∀ seen queue, net.flowFrom fuel seen queue = net'.flowFrom fuel seen queue := by
  induction fuel with
  | zero => exact fun seen queue => by rw [flowFrom, flowFrom]
  | succ fuel ih =>
    intro seen queue
    cases queue with
    | nil => rw [flowFrom, flowFrom]
    | cons place rest =>
      rw [flowFrom, flowFrom, h.flowsTo_eq]
      exact ih _ _

theorem components_eq (h : SameShape net net') : net.components = net'.components := by
  have hreached : net.reachedFrom = net'.reachedFrom := by
    funext place
    rw [reachedFrom, reachedFrom, h.places, h.flowFrom_eq]
  rw [components, components, h.placeNames_eq, hreached]

/-- Nets of one shape have one report. -/
theorem topology_eq [Quantity α] (h : SameShape net net') : net.topology = net'.topology := by
  have hany : ∀ place : String,
      net.arcs.any (·.place == place) = net'.arcs.any (·.place == place) := by
    intro place
    rw [Bool.eq_iff_iff, any_place_iff, any_place_iff]
    exact exists_congr fun direction => exists_congr fun t => h.linked direction place t
  have hcyclic : net.isCyclic = net'.isCyclic := by
    funext component
    unfold isCyclic
    rw [h.flowsTo_eq]
  have hseeded : net.isSeeded = net'.isSeeded := by
    funext component
    rw [isSeeded, isSeeded, h.places]
  have hnames : net.transitionNames = net'.transitionNames := by
    rw [transitionNames, transitionNames, h.transitions]
  simp only [topology, h.placeNames_eq, hnames, hany, h.hasArc_eq, h.components_eq, hcyclic,
    hseeded]

end SameShape

end Net

end NoteGraph
