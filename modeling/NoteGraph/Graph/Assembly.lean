import NoteGraph.Graph.Basic
import NoteGraph.Operation.Basic
import NoteGraph.Role

/-!
# Assembling a graph

The operations of a stream are replayed in three passes: nodes first, then morphs, then
all else, so that a record may refer to what is declared after it. The first
declaration of an identifier holds. A record that is made again only joins the morph it
is made under; a record whose morph cannot be found is made without one and reported.
-/

namespace NoteGraph

/-- The name of a basic morph. -/
def basicMorphName : String := "basic"

/-- A morph with one more record. -/
def Morph.list (m : Morph) (kind : RecordKind) (id : String) : Morph :=
  match kind with
  | .relation => { m with relationIds := m.relationIds ++ [id] }
  | .attribute => { m with attributeIds := m.attributeIds ++ [id] }

/-- A node with the morph of an identifier changed. -/
def Node.modifyMorph (n : Node) (morphId : String) (f : Morph → Morph) : Node :=
  let change (m : Morph) : Morph := if m.morphId == morphId then f m else m
  { n with basic := change n.basic, others := n.others.map change }

namespace Graph

/-- The graph with an error reported. -/
def report (g : Graph) (e : GraphError) : Graph := { g with errors := g.errors ++ [e] }

/-- The graph with every node of an identifier changed. -/
def modifyNode (g : Graph) (id : String) (f : Node → Node) : Graph :=
  { g with nodes := g.nodes.map fun n => if n.id == id then f n else n }

/-! ### The first two passes -/

/-- The identifier of the basic morph of the node that is declared as the `number`-th. -/
def basicMorphId (id : String) (number : Nat) : String :=
  id ++ "_morph_basic_" ++ toString number

/-- The node that is declared as the `number`-th. -/
def newNode (id : String) (record : NodeRecord) (number : Nat) : Node :=
  { id
    baseName := record.baseName
    name :=
      match record.adjective.filter (!·.isEmpty) with
      | some adjective => adjective ++ " " ++ record.baseName
      | none => record.baseName
    displayName := record.displayName
    role := if record.role.isEmpty then individualRole else record.role
    adjective := record.adjective
    quantifier := record.quantifier
    parentTypes := record.parentTypes
    basic := {
      morphId := basicMorphId id number
      nodeId := id
      name := basicMorphName }
    nbh := basicMorphId id number }

/-- Declares a node, unless its identifier is taken. -/
def addNode (g : Graph) (id : String) (record : NodeRecord) : Graph :=
  if (g.node? id).isSome then g
  else { g with nodes := g.nodes ++ [newNode id record (g.nodes.length + 1)] }

/-- Declares a morph, unless its node has one with its identifier. -/
def addMorph (g : Graph) (record : MorphRecord) : Graph :=
  match g.node? record.nodeId with
  | none => g.report (.morphOfUnknownNode record.name record.nodeId)
  | some node =>
    if (node.morph? record.morphId).isSome then g
    else
      g.modifyNode record.nodeId fun n =>
        { n with others := n.others ++ [⟨record.morphId, record.nodeId, record.name, [], []⟩] }

/-! ### Records -/

/-- The morph that a record is made under: the one it names, or the basic morph of its
source. -/
def targetMorph (g : Graph) (kind : RecordKind) (id source : String)
    (morphId : Option String) : Except GraphError String :=
  match g.node? source with
  | none => .error (.recordOfUnknownNode kind id source)
  | some node =>
    match morphId with
    | none => .ok node.basic.morphId
    | some m =>
      if (node.morph? m).isSome then .ok m
      else .error (.recordOfUnknownMorph kind id m source)

/-- The graph with a record listed by a morph of its source. -/
def listUnder (g : Graph) (kind : RecordKind) (id source morphId : String) : Graph :=
  g.modifyNode source fun n => n.modifyMorph morphId fun m => m.list kind id

/-- Makes an edge, unless its identifier is taken, and has it join its morph. -/
def addRelation (g : Graph) (id : String) (record : RelationRecord) : Graph :=
  let target := g.targetMorph .relation id record.source record.morphId
  let g := match target with
    | .error e => g.report e
    | .ok _ => g
  let g :=
    if g.edges.any (·.id == id) then g
    else { g with edges := g.edges ++ [{
      id, sourceId := record.source, targetId := record.target, name := record.name
      weight := record.weight }] }
  match target with
  | .error _ => g
  | .ok morphId =>
    if g.edges.any fun e => e.id == id && e.morphIds.contains morphId then g
    else
      { g.listUnder .relation id record.source morphId with
        edges := g.edges.map fun e =>
          if e.id == id then { e with morphIds := e.morphIds ++ [morphId] } else e }

/-- Makes an attribute, unless its identifier is taken, and has it join its morph. -/
def addAttribute (g : Graph) (made : Attribute) (morphId : Option String) : Graph :=
  let id := made.id
  let target := g.targetMorph .attribute id made.sourceId morphId
  let g := match target with
    | .error e => g.report e
    | .ok _ => g
  let g :=
    if g.attributes.any (·.id == id) then g
    else { g with attributes := g.attributes ++ [made] }
  match target with
  | .error _ => g
  | .ok morphId =>
    if g.attributes.any fun a => a.id == id && a.morphIds.contains morphId then g
    else
      { g.listUnder .attribute id made.sourceId morphId with
        attributes := g.attributes.map fun a =>
          if a.id == id then { a with morphIds := a.morphIds ++ [morphId] } else a }

/-- The attribute that a value makes. -/
def attributeOf (id : String) (record : AttributeRecord) : Attribute :=
  { id
    sourceId := record.source
    name := record.name
    value := record.value
    unit := record.unit
    adverb := record.adverb
    modality := record.modality
    quantifier := record.quantifier }

/-- The attribute that the application of a function makes. -/
def attributeOfFunction (id : String) (record : FunctionRecord) : Attribute :=
  { id
    sourceId := record.source
    name := record.name
    value := "function:" ++ record.name }

/-- Sets the description of a node, the only field that can be set. -/
def updateField (g : Graph) (record : FieldRecord) : Graph :=
  if (g.node? record.nodeId).isNone then
    g.report (.fieldOfUnknownNode record.field record.nodeId)
  else if record.field != "description" then
    g.report (.unsupportedField record.field record.nodeId)
  else g.modifyNode record.nodeId fun n => { n with description := some record.value }

/-! ### Replaying a stream -/

/-- What an operation does in the first pass. -/
def declareNode (g : Graph) (op : Operation) : Graph :=
  match op.action with
  | .addNode record => g.addNode op.id record
  | _ => g

/-- What an operation does in the second pass. -/
def declareMorph (g : Graph) (op : Operation) : Graph :=
  match op.action with
  | .addMorph record => g.addMorph record
  | _ => g

/-- What an operation does in the third pass. -/
def replay (g : Graph) (op : Operation) : Graph :=
  match op.action with
  | .addNode _ | .addMorph _ => g
  | .addRelation record => g.addRelation op.id record
  | .addAttribute record => g.addAttribute (attributeOf op.id record) record.morphId
  | .applyFunction record => g.addAttribute (attributeOfFunction op.id record) record.morphId
  | .updateField record => g.updateField record
  | .setDescription description => { g with description := some description }
  | .setCurrency currency => { g with currency := some currency }

/-- The graph of a stream of operations. -/
def ofOperations (ops : List Operation) : Graph :=
  ops.foldl replay (ops.foldl declareMorph (ops.foldl declareNode {}))

end Graph

end NoteGraph
