import NoteGraph.Compile
import NoteGraph.Net.Books
import NoteGraph.Net.Topology

/-!
# The net of a graph

The transitions and transactions of a graph are the transitions of its net; what their
state relations point to are its places. In a token net the places from which something
is taken start with a given number of tokens and all others empty. In an accounting net
every account is a place too, and each place starts with the balance that its node
gives. What is left out of the net is noted.
-/

namespace NoteGraph

/-- The relation from a transition to a place it takes from. -/
def priorState : String := "has prior_state"

/-- The relation from a transition to a place it puts into. -/
def postState : String := "has post_state"

/-- The direction of the arcs that a relation makes. -/
def Direction.ofRelation? (name : String) : Option Direction :=
  if name == priorState then some .input
  else if name == postState then some .output
  else none

/-- A warning of the net builder. -/
def netWarning (message : String) : Log.Entry :=
  { level := Log.warning, logger := "nodebook.petri.structure", message }

namespace Graph

/-- The nodes that are transitions. -/
def transitionNodes (g : Graph) : List Node :=
  g.nodes.filter fun n => transitionRoles.contains n.role

/-- Whether an identifier is that of a transition. -/
def isTransition (g : Graph) (id : String) : Bool := g.transitionNodes.any (·.id == id)

/-- The edges that stand for arcs of a net. -/
def stateEdges (g : Graph) : List Edge :=
  g.edges.filter fun e => (Direction.ofRelation? e.name).isSome && g.isTransition e.sourceId

/-- Whether an edge makes an arc: to a place, and with a positive weight. -/
def makesArc (g : Graph) (e : Edge) : Bool :=
  !g.isTransition e.targetId && Number.lt 0 e.weight

/-- The edges that make arcs. -/
def arcEdges (g : Graph) : List Edge := g.stateEdges.filter g.makesArc

/-- What is noted of the edges that make no arcs. -/
def arcWarnings (g : Graph) : List Log.Entry :=
  (g.stateEdges.filter fun e => !g.makesArc e).map fun e => netWarning <|
    if g.isTransition e.targetId then
      "Skipping arc " ++ e.id ++ ": '" ++ e.sourceId ++ "' -> '" ++ e.targetId ++
        "' connects two transitions"
    else "Skipping arc " ++ e.id ++ " with non-positive weight " ++ e.weight.text

/-- Whether a node is a place because it is an account. -/
def isAccountPlace (g : Graph) (n : Node) : Bool :=
  accountRoles.contains n.role && !g.isTransition n.id

/-- The places of the net: nodes in the order of the graph, then the other targets in
ascending order. -/
def placeIds (g : Graph) (accounting : Bool) : List String :=
  let targets := g.arcEdges.map (·.targetId)
  let nodes := (g.nodes.filter fun n =>
    targets.contains n.id || (accounting && g.isAccountPlace n)).map (·.id)
  nodes ++ sortNames ((targets.filter fun id => !nodes.contains id).eraseDups)

/-- The opening balance of a node: its first balance under its basic morph, or zero if it
has none that is an amount. -/
def openingBalance (g : Graph) (n : Node) : Number × List Log.Entry :=
  match (g.attributesOf n.id (some "balance")).find?
      fun a => n.basic.attributeIds.contains a.id with
  | none => (.float 0, [])
  | some a =>
    match readAmount? a.value with
    | some amount => (.float amount, [])
    | none =>
      (.float 0, [netWarning
        ("Ignoring unparseable balance " ++ Text.quoted a.value ++ " on '" ++ n.id ++ "'")])

/-- What a place holds at the start, or that it cannot be computed with. -/
def seed (g : Graph) (accounting : Bool) (tokens : Number) (id : String) :
    Number × List Log.Entry :=
  if accounting then
    match g.node? id with
    | some n => g.openingBalance n
    | none => (.float 0, [])
  else if g.arcEdges.any fun e => e.name == priorState && e.targetId == id then (tokens, [])
  else (.float 0, [])

/-- The net with the places of some identifiers added, and what is noted of them up to
the first that cannot be added. -/
def addPlaces (g : Graph) (accounting : Bool) (tokens : Number) (net : Net Number) :
    List String → Except NetError (Net Number) × List Log.Entry
  | [] => (.ok net, [])
  | id :: rest =>
    let (value, notes) := g.seed accounting tokens id
    match net.addPlace id value ((g.node? id).map (·.role)) with
    | .error e => (.error e, notes)
    | .ok net =>
      let (result, more) := g.addPlaces accounting tokens net rest
      (result, notes ++ more)

/-- The arc of an edge. -/
def arcOf (e : Edge) : Arc Number :=
  ⟨(Direction.ofRelation? e.name).getD .input, e.targetId, e.sourceId, e.weight.toFloat⟩

/-- The net of a graph, and what is noted while it is built. -/
def toNet (g : Graph) (accounting : Bool) (tokens : Number) :
    Except NetError (Net Number) × List Log.Entry :=
  if g.arcEdges.any (·.weight.isTooLarge) then (.error (.outOfRange .tooLarge), g.arcWarnings)
  else
    let (result, notes) := g.addPlaces accounting tokens {} (g.placeIds accounting)
    let complete (net : Net Number) : Net Number :=
      { net with
        transitions := g.transitionNodes.map fun n => ⟨n.id, some n.role⟩
        arcs := g.arcEdges.map arcOf }
    (result.map complete, g.arcWarnings ++ notes)

end Graph

end NoteGraph
