import NoteGraph.Graph.Assembly
import NoteGraph.Log.Basic
import NoteGraph.Operation.OfText
import NoteGraph.Role
import NoteGraph.Schema.Validation

/-!
# Compiling a text

A text is compiled into the graph of its operations, the warnings about them, and the
mode in which the graph is shown and simulated.
-/

namespace NoteGraph

/-- What a graph is shown and simulated as. -/
inductive Mode where
  /-- A graph with transactions. -/
  | accounting
  /-- A graph with transitions and no transactions. -/
  | tokenNet
  /-- Any other graph whose nodes all come from mindmaps. -/
  | mindmap
  | conceptMap
  deriving DecidableEq

/-- The word for a mode. -/
def Mode.name : Mode → String
  | accounting => "accounting"
  | tokenNet => "petri-net"
  | mindmap => "mindmap"
  | conceptMap => "concept-map"

/-- Whether a graph has transactions. -/
def Graph.hasTransactions (g : Graph) : Bool := g.nodes.any (·.role == transactionRole)

/-- The mode of a graph; `ops` are the operations it was assembled from, as far as they
are known. -/
def Graph.mode (g : Graph) (ops : List Operation) : Mode :=
  let declarations := ops.filter fun op => op.node?.isSome
  if g.hasTransactions then .accounting
  else if g.nodes.any fun n => transitionRoles.contains n.role then .tokenNet
  else if !declarations.isEmpty && declarations.all (·.origin == mindmapOrigin) then .mindmap
  else .conceptMap

/-- What a text is compiled into. -/
structure Compiled where
  graph : Graph
  operations : List Operation
  warnings : List Schema.Warning
  mode : Mode

/-- Compiles a text with a catalog. -/
def compile (text : String) (catalog : Schema.Catalog) : Compiled :=
  let operations := operationsOf text
  let graph := Graph.ofOperations operations
  { graph, operations, warnings := Schema.validate catalog operations
    mode := graph.mode operations }

/-- Whether all references of a graph were resolved. -/
def Compiled.ok (c : Compiled) : Bool := c.graph.errors.isEmpty

/-- The fields of a compiled text. -/
def Compiled.toJson (c : Compiled) : Json :=
  .object [("mode", .string c.mode.name), ("graph", c.graph.toJson),
    ("warnings", .array (c.warnings.map Schema.Warning.toJson))]

/-- What is noted of a compilation. -/
def Compiled.note (c : Compiled) : Log.Entry :=
  { level := Log.info
    logger := "nodebook.compile"
    message := "Compiled " ++ c.mode.name ++ " graph with " ++ toString c.warnings.length ++
      " schema warning(s)"
    context := some (.object [
      ("mode", .string c.mode.name), ("nodes", Json.int c.graph.nodes.length),
      ("edges", Json.int c.graph.edges.length),
      ("warnings", Json.int c.warnings.length)]) }

end NoteGraph
