import NoteGraph.Net.OfGraph
import NoteGraph.Proofs.Net.Marking
import NoteGraph.Proofs.Net.ParallelArcs
import NoteGraph.Proofs.Number.Order

/-!
# The parts of the net of a graph

The net of a graph has the places, the transitions and the arcs of the graph, whatever
its places hold at the start: no two places share a name, what they hold is finite, and
every arc has a weight above zero.
-/

namespace NoteGraph

/-! ### Building the places -/

namespace Graph

/-- The place that a graph makes of an identifier. -/
def placeOf (g : Graph) (accounting : Bool) (tokens : Number) (id : String) : Place Number :=
  ⟨id, (g.seed accounting tokens id).1.toFloat, (g.node? id).map (·.role)⟩

/-- A net is that of a graph. -/
structure IsNetOf (g : Graph) (accounting : Bool) (tokens : Number) (net : Net Number) :
    Prop where
  places : net.places = (g.placeIds accounting).map (g.placeOf accounting tokens)
  transitions : net.transitions = g.transitionNodes.map fun n => ⟨n.id, some n.role⟩
  arcs : net.arcs = g.arcEdges.map arcOf
  nodup : net.placeNames.Nodup
  /-- What the places hold at the start is finite. -/
  finite : ∀ place ∈ net.places, place.tokens.isFinite = true

theorem addPlace_eq_ok {net net' : Net Number} {name : String} {tokens : Number}
    {role : Option String} (h : net.addPlace name tokens role = .ok net') :
    name ∉ net.placeNames ∧ tokens.toFloat.isFinite = true ∧
      net' = { net with places := net.places ++ [⟨name, tokens.toFloat, role⟩] } := by
  simp only [Net.addPlace] at h
  split_ifs at h with hkind hlarge hfinite
  refine ⟨fun hmem => hkind ?_, ?_, (Except.ok.inj h).symm⟩
  · have hplace : net.hasPlace name = true := by
      simpa [Net.hasPlace, Net.placeNames, List.any_eq_true] using hmem
    rw [Net.kindOf?, if_pos hplace]
    rfl
  · cases tokens with
    | int n =>
      simpa [Number.isTooLarge, Number.isFinite, Number.toFloat, Number.toBinary64] using hlarge
    | float x => simpa [Number.isFinite, Number.toFloat, Number.toBinary64] using hfinite

theorem addPlaces_eq_ok {g : Graph} {accounting : Bool} {tokens : Number} {ids : List String} :
    ∀ {net net' : Net Number}, (g.addPlaces accounting tokens net ids).1 = .ok net' →
      net.placeNames.Nodup → (∀ place ∈ net.places, place.tokens.isFinite = true) →
      net'.places = net.places ++ ids.map (g.placeOf accounting tokens) ∧
        net'.placeNames.Nodup ∧ ∀ place ∈ net'.places, place.tokens.isFinite = true := by
  induction ids with
  | nil =>
    intro net net' h hn hf
    obtain rfl := Except.ok.inj h
    exact ⟨(List.append_nil _).symm, hn, hf⟩
  | cons id rest ih =>
    intro net net' h hn hf
    simp only [addPlaces] at h
    split at h
    · cases h
    · rename_i next hnext
      obtain ⟨hnew, hfinite, rfl⟩ := addPlace_eq_ok hnext
      have hn' : (net.placeNames ++ [id]).Nodup := by
        refine List.nodup_append.mpr ⟨hn, List.nodup_singleton _, ?_⟩
        rintro a ha b hb rfl
        exact hnew (List.mem_singleton.mp hb ▸ ha)
      have hf' : ∀ place ∈ net.places ++ [g.placeOf accounting tokens id],
          place.tokens.isFinite = true := by
        intro place hp
        rcases List.mem_append.mp hp with hp | hp
        · exact hf place hp
        · rw [List.mem_singleton.mp hp]
          exact hfinite
      obtain ⟨hplaces, hrest⟩ := ih h (by simpa [Net.placeNames] using hn') hf'
      rw [List.append_assoc] at hplaces
      exact ⟨hplaces, hrest⟩

theorem isNetOf_of_toNet {g : Graph} {accounting : Bool} {tokens : Number} {net : Net Number}
    (h : (g.toNet accounting tokens).1 = .ok net) : g.IsNetOf accounting tokens net := by
  simp only [toNet] at h
  split_ifs at h
  cases hadd : (g.addPlaces accounting tokens {} (g.placeIds accounting)).1 with
  | error e =>
    rw [hadd] at h
    cases h
  | ok built =>
    rw [hadd] at h
    obtain rfl := Except.ok.inj h
    obtain ⟨hplaces, hn, hf⟩ := addPlaces_eq_ok hadd List.nodup_nil (fun _ h => nomatch h)
    exact ⟨hplaces, rfl, rfl, hn, hf⟩

/-! ### What holds of every net of a graph -/

namespace IsNetOf

variable {g : Graph} {accounting : Bool} {tokens : Number} {net : Net Number}

theorem placeNames_eq (h : g.IsNetOf accounting tokens net) :
    net.placeNames = g.placeIds accounting := by
  rw [Net.placeNames, h.places, List.map_map]
  exact List.map_id _

theorem transitionNames_eq (h : g.IsNetOf accounting tokens net) :
    net.transitionNames = g.transitionNodes.map (·.id) := by
  rw [Net.transitionNames, h.transitions, List.map_map]
  rfl

/-- Nets of one graph differ only in what their places hold at the start. -/
theorem weights_eq [EntryOrder] {tokens' : Number} {net' : Net Number}
    (h : g.IsNetOf accounting tokens net) (h' : g.IsNetOf accounting tokens' net') :
    net.weights = net'.weights :=
  Net.weights_congr (h.placeNames_eq.trans h'.placeNames_eq.symm)
    (h.transitionNames_eq.trans h'.transitionNames_eq.symm)
    (h.arcs.trans h'.arcs.symm)

/-- In a token net no place starts with less than nothing. -/
theorem nonNeg_tokens (h : g.IsNetOf false tokens net) (hn : Number.lt tokens 0 = false)
    {place : Place Number} (hp : place ∈ net.places) : place.tokens.toBinary64.NonNeg := by
  have hfinite := h.finite place hp
  rw [h.places] at hp
  obtain ⟨id, -, rfl⟩ := List.mem_map.mp hp
  change (g.seed false tokens id).1.toBinary64.isFinite = true at hfinite
  change (g.seed false tokens id).1.toBinary64.NonNeg
  rw [seed, if_neg Bool.false_ne_true] at hfinite ⊢
  split_ifs at hfinite ⊢ with hseeded
  · refine (Number.lt_zero_iff ?_).mp hn
    cases tokens with
    | int => rfl
    | float => exact hfinite
  · exact Number.Binary64.zero_def ▸ Number.Binary64.nonNeg_zero

theorem zero_lt_arc (h : g.IsNetOf accounting tokens net) {a : Arc Number} (ha : a ∈ net.arcs) :
    Number.lt 0 (.float a.weight.toBinary64) = true := by
  rw [h.arcs] at ha
  obtain ⟨e, he, rfl⟩ := List.mem_map.mp ha
  change Number.lt 0 (.float e.weight.toBinary64) = true
  exact Number.zero_lt_toBinary64 (Bool.and_eq_true_iff.mp (List.mem_filter.mp he).2).2

/-- Summed weights are above zero, maybe infinite. -/
theorem zero_lt_weight [EntryOrder] (h : g.IsNetOf accounting tokens net) {direction : Direction}
    {t : String} {arc : String × Number} (harc : arc ∈ net.weights direction t) :
    Number.lt 0 (.float arc.2.toBinary64) = true := by
  obtain ⟨-, first, rest, hw, hsum⟩ := Net.mem_weights.mp harc
  have hall : ∀ w ∈ first :: rest, Number.lt 0 (.float w.toBinary64) = true := fun w hmem => by
    obtain ⟨a, ha, rfl⟩ := Net.mem_addends (hw ▸ hmem)
    exact h.zero_lt_arc ha
  rw [hsum]
  exact Number.zero_lt_foldl_add hall

end IsNetOf

end Graph

end NoteGraph
