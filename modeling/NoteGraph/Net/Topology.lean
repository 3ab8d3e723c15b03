import NoteGraph.Json.Basic
import NoteGraph.Net.Basic

/-!
# The shape of a net

What can be told from the arcs of a net alone: places and transitions without arcs,
transitions that produce without consuming, and cycles of places that no token can
enter because all of their places start empty.
-/

namespace NoteGraph

/-- A report on the shape of a net; every list is in ascending order. -/
structure Topology where
  isolatedPlaces : List String := []
  isolatedTransitions : List String := []
  inputFreeTransitions : List String := []
  unseededCycles : List (List String) := []
  deriving DecidableEq

/-- Whether there is nothing to report. -/
def Topology.isClean (t : Topology) : Bool :=
  t.isolatedPlaces.isEmpty && t.isolatedTransitions.isEmpty &&
    t.inputFreeTransitions.isEmpty && t.unseededCycles.isEmpty

/-- Lists of names in ascending order, compared name by name. -/
def sortNameLists (lists : List (List String)) : List (List String) :=
  lists.mergeSort fun a b => !b.lex a fun s t => decide (s < t)

namespace Net

variable {α : Type}

/-- Whether a transition has an arc in a direction. -/
def hasArc (net : Net α) (direction : Direction) (transition : String) : Bool :=
  net.arcs.any fun a => a.direction = direction && a.transition == transition

/-- The places into which some transition produces when it consumes from a place. -/
def flowsTo (net : Net α) (place : String) : List String :=
  let consumers := net.arcs.filter fun a => a.direction = .input && a.place == place
  net.placeNames.filter fun target =>
    net.arcs.any fun a =>
      a.direction = .output && a.place == target &&
        consumers.any (·.transition == a.transition)

/-- The places seen after following the flow from those in the queue. Every place enters
the queue once, so `fuel` for each of them suffices. -/
def flowFrom (net : Net α) : Nat → List String → List String → List String
  | 0, seen, _ => seen
  | _ + 1, seen, [] => seen
  | fuel + 1, seen, place :: queue =>
    let new := (net.flowsTo place).filter fun p => !seen.contains p
    net.flowFrom fuel (seen ++ new) (queue ++ new)

/-- The places that the flow reaches from a place, the place itself among them. -/
def reachedFrom (net : Net α) (place : String) : List String :=
  net.flowFrom net.places.length [place] [place]

/-- The places with which each place lies on a cycle, or alone, each group once at the
place of its first member. `reach` gives what each place reaches, and `grouped` holds
the places of earlier groups. -/
def groupPlaces (reach : List (String × List String)) (grouped : List String) :
    List String → List (List String)
  | [] => []
  | place :: rest =>
    if grouped.contains place then groupPlaces reach grouped rest
    else
      let together := ((reach.lookup place).getD []).filter fun other =>
        ((reach.lookup other).getD []).contains place
      together :: groupPlaces reach (grouped ++ together) rest

/-- The strongly connected components of the flow between places. -/
def components (net : Net α) : List (List String) :=
  groupPlaces (net.placeNames.map fun p => (p, net.reachedFrom p)) [] net.placeNames

/-- Whether a component holds a cycle. -/
def isCyclic (net : Net α) : List String → Bool
  | [place] => (net.flowsTo place).contains place
  | _ => true

/-- Whether some place of a component holds more than nothing at the start. -/
def isSeeded [Quantity α] (net : Net α) (component : List String) : Bool :=
  net.places.any fun p => component.contains p.name && Quantity.below 0 p.tokens

/-- The report on the shape of a net. -/
def topology [Quantity α] (net : Net α) : Topology :=
  { isolatedPlaces := sortNames (net.placeNames.filter fun p =>
      !net.arcs.any (·.place == p))
    isolatedTransitions := sortNames (net.transitionNames.filter fun t =>
      !net.hasArc .input t && !net.hasArc .output t)
    inputFreeTransitions := sortNames (net.transitionNames.filter fun t =>
      !net.hasArc .input t && net.hasArc .output t)
    unseededCycles := sortNameLists ((net.components.filter fun c =>
      net.isCyclic c && !net.isSeeded c).map sortNames) }

end Net

/-- The fields of a report. -/
def Topology.toJson (t : Topology) : Json :=
  .object [("isolated_places", Json.strings t.isolatedPlaces),
    ("isolated_transitions", Json.strings t.isolatedTransitions),
    ("input_free_transitions", Json.strings t.inputFreeTransitions),
    ("unseeded_cycles", .array (t.unseededCycles.map Json.strings))]

end NoteGraph
