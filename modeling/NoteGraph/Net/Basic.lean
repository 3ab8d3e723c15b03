import NoteGraph.Keyed
import NoteGraph.Net.EntryOrder
import NoteGraph.Number.Quantity

/-!
# Nets

A net has places, which hold quantities, transitions, and weighted arcs from places to
transitions and back. Names are shared by places and transitions and are not given
twice. A net is built step by step; a step that cannot be taken leaves the net as it
was. Parallel arcs count as one arc whose weight is the sum of theirs, in the order in which
a table of the arcs takes its entries.
-/

namespace NoteGraph

/-- A place with what it holds at the start. -/
structure Place (α : Type) where
  name : String
  tokens : α
  role : Option String := none
  deriving DecidableEq

/-- A transition. -/
structure Transition where
  name : String
  role : Option String
  deriving DecidableEq

/-- The two directions of arcs, as their transition sees them. -/
inductive Direction where
  | input
  | output
  deriving DecidableEq

/-- An arc between a place and a transition. -/
structure Arc (α : Type) where
  direction : Direction
  place : String
  transition : String
  weight : α
  deriving DecidableEq

/-- A net of places, transitions and arcs, each in the order of building. -/
structure Net (α : Type) where
  places : List (Place α) := []
  transitions : List Transition := []
  arcs : List (Arc α) := []
  deriving DecidableEq

/-- What a place or transition is. -/
inductive NodeKind where
  | place
  | transition
  deriving DecidableEq

/-- The word for a kind of node. -/
def NodeKind.name : NodeKind → String
  | place => "PLACE"
  | transition => "TRANSITION"

/-- Why a step cannot be taken. -/
inductive NetError where
  | nameTaken (name : String)
  | tokensNotFinite (tokens : Number)
  | unknownNode (name : String)
  | sameKind (kind : NodeKind) (source target : String)
  | weightNotPositive (weight : Number)
  | outOfRange (error : Number.RangeError)
  | unknownTransition (name : String)
  | negativeTokens (tokens : Number)
  deriving DecidableEq

/-- What is reported of a step that cannot be taken. -/
def NetError.message : NetError → String
  | nameTaken name => "Node '" ++ name ++ "' already exists."
  | tokensNotFinite tokens => "initial_tokens must be finite, got " ++ tokens.text
  | unknownNode name => "Unknown node '" ++ name ++ "'."
  | sameKind kind source target =>
    "Arc must connect Place<->Transition, got " ++ kind.name ++ "->" ++ kind.name ++
      " ('" ++ source ++ "'->'" ++ target ++ "')."
  | weightNotPositive weight => "weight must be > 0, got " ++ weight.text
  | outOfRange e => e.message
  | unknownTransition name => name
  | negativeTokens tokens => "initial_tokens must be >= 0, got " ++ tokens.text

namespace Net

variable {α : Type}

/-! ### Queries -/

/-- The names of the places in order. -/
def placeNames (net : Net α) : List String := net.places.map (·.name)

/-- The names of the transitions in order. -/
def transitionNames (net : Net α) : List String := net.transitions.map (·.name)

/-- Whether a name is that of a place. -/
def hasPlace (net : Net α) (name : String) : Bool := net.places.any (·.name == name)

/-- Whether a name is that of a transition. -/
def hasTransition (net : Net α) (name : String) : Bool :=
  net.transitions.any (·.name == name)

/-- What a name names. -/
def kindOf? (net : Net α) (name : String) : Option NodeKind :=
  if net.hasPlace name then some .place
  else if net.hasTransition name then some .transition
  else none

/-- The role of a place or transition. -/
def role? (net : Net α) (name : String) : Option String :=
  match net.places.find? (·.name == name) with
  | some place => place.role
  | none => (net.transitions.find? (·.name == name)).bind (·.role)

/-- The arcs in one direction. -/
def arcsIn (net : Net α) (direction : Direction) : List (Arc α) :=
  net.arcs.filter (·.direction = direction)

/-- The row and the column of a place and a transition in the table of a direction: inputs have a
row for each transition, outputs one for each place. -/
def cellAt (net : Net α) (direction : Direction) (place transition : String) : Nat × Nat :=
  let place := net.placeNames.idxOf place
  let transition := net.transitionNames.idxOf transition
  match direction with
  | .input => (transition, place)
  | .output => (place, transition)

/-- The cell of an arc in the table of its direction. -/
def cellOf (net : Net α) (a : Arc α) : Nat × Nat :=
  net.cellAt a.direction a.place a.transition

/-- The cells of the arcs in one direction, in the order of the arcs. -/
def cells (net : Net α) (direction : Direction) : List (Nat × Nat) :=
  (net.arcsIn direction).map net.cellOf

/-- The arcs in one direction as their table takes them. -/
def arranged [EntryOrder] (net : Net α) (direction : Direction) : List (Arc α) :=
  EntryOrder.arrange net.cellOf (net.arcsIn direction)

/-- The weights of those of some arcs that lead between a place and a transition. -/
def weightsBetween (arcs : List (Arc α)) (place transition : String) : List α :=
  arcs.filterMap fun a =>
    if a.place == place && a.transition == transition then some a.weight else none

/-- The places with arcs to or from a transition, in the order of places, each with the
sum of the weights of its arcs. -/
def weights [EntryOrder] [Quantity α] (net : Net α) (direction : Direction)
    (transition : String) : List (String × α) :=
  let arcs := net.arranged direction
  net.places.filterMap fun place =>
    match weightsBetween arcs place.name transition with
    | [] => none
    | first :: rest => some (place.name, rest.foldl (· + ·) first)

/-- What a transition takes from each of its input places. -/
def inputWeights [EntryOrder] [Quantity α] (net : Net α) (transition : String) :
    List (String × α) :=
  net.weights .input transition

/-- What a transition puts into each of its output places. -/
def outputWeights [EntryOrder] [Quantity α] (net : Net α) (transition : String) :
    List (String × α) :=
  net.weights .output transition

/-- What each place holds at the start. -/
def initialTokens (net : Net α) : List α := net.places.map (·.tokens)

/-- The summed weights of the arcs from places, with a row for each transition. -/
def inputTable [EntryOrder] [Quantity α] (net : Net α) : List (List α) :=
  let arcs := net.arranged .input
  net.transitions.map fun t => net.places.map fun p =>
    (weightsBetween arcs p.name t.name).foldl (· + ·) 0

/-- The summed weights of the arcs to places, with a row for each place. -/
def outputTable [EntryOrder] [Quantity α] (net : Net α) : List (List α) :=
  let arcs := net.arranged .output
  net.places.map fun p => net.transitions.map fun t =>
    (weightsBetween arcs p.name t.name).foldl (· + ·) 0

/-! ### Building -/

/-- The net with one more place. -/
def addPlace (net : Net Number) (name : String) (tokens : Number) (role : Option String) :
    Except NetError (Net Number) :=
  if (net.kindOf? name).isSome then .error (.nameTaken name)
  else if tokens.isTooLarge then .error (.outOfRange .tooLarge)
  else if !tokens.isFinite then .error (.tokensNotFinite tokens)
  else .ok { net with places := net.places ++ [⟨name, tokens.toFloat, role⟩] }

/-- The net with one more transition. -/
def addTransition (net : Net α) (name : String) (role : Option String) :
    Except NetError (Net α) :=
  if (net.kindOf? name).isSome then .error (.nameTaken name)
  else .ok { net with transitions := net.transitions ++ [⟨name, role⟩] }

/-- The arc from one node to another, if one is a place and the other a transition. -/
def arcBetween (net : Net α) (source target : String) (weight : α) :
    Except NetError (Arc α) :=
  match net.kindOf? source with
  | none => .error (.unknownNode source)
  | some sourceKind =>
    match net.kindOf? target with
    | none => .error (.unknownNode target)
    | some targetKind =>
      match sourceKind, targetKind with
      | .place, .transition => .ok ⟨.input, source, target, weight⟩
      | .transition, .place => .ok ⟨.output, target, source, weight⟩
      | kind, _ => .error (.sameKind kind source target)

/-- The net with one more arc. -/
def addArc (net : Net Number) (source target : String) (weight : Number) :
    Except NetError (Net Number) := do
  let arc ← net.arcBetween source target weight.toFloat
  if !Number.lt 0 weight then .error (.weightNotPositive weight)
  else if weight.isTooLarge then .error (.outOfRange .tooLarge)
  else .ok { net with arcs := net.arcs ++ [arc] }

end Net

/-! ### Markings -/

/-- What each place holds; a place that is not listed holds nothing. -/
abbrev Marking (α : Type) := List (String × α)

namespace Marking

variable {α : Type}

/-- What a place holds. -/
def get [Zero α] (m : Marking α) (place : String) : α := (m.lookup place).getD 0

/-- The marking in which a place holds something else. -/
def set (m : Marking α) (place : String) (value : α) : Marking α := Keyed.put m place value

/-- Whether what some places hold can be computed with. -/
def isMeasurable (m : Marking Number) (places : List String) : Bool :=
  places.all fun place => !(m.get place).isTooLarge

end Marking

end NoteGraph
