import NoteGraph.Operation.Basic

/-!
# What operations declare and refer to

An operation may declare a node or a morph, and it may refer to nodes, to morphs and to fields
of nodes, which the same stream declares before it or after it.
-/

namespace NoteGraph

/-- The identifier and the record of the node that an operation declares. -/
def Operation.declaration? (op : Operation) : Option (String × NodeRecord) :=
  op.node?.map fun record => (op.id, record)

/-- The morph that an operation declares. -/
def Operation.morph? (op : Operation) : Option MorphRecord :=
  match op.action with
  | .addMorph record => some record
  | _ => none

/-- The nodes that a stream declares. -/
def nodeIds (ops : List Operation) : List String :=
  (ops.filterMap Operation.declaration?).map Prod.fst

/-- The morphs that a stream declares, each with its node. -/
def morphKeys (ops : List Operation) : List (String × String) :=
  (ops.filterMap Operation.morph?).map fun record => (record.nodeId, record.morphId)

@[simp] theorem nodeIds_append (ops more : List Operation) :
    nodeIds (ops ++ more) = nodeIds ops ++ nodeIds more := by
  simp [nodeIds]

@[simp] theorem morphKeys_append (ops more : List Operation) :
    morphKeys (ops ++ more) = morphKeys ops ++ morphKeys more := by
  simp [morphKeys]

/-- What an operation refers to. -/
inductive Reference where
  /-- The node that something is said of. -/
  | node (id : String)
  /-- The node that a relation leads to. -/
  | target (id : String)
  /-- A morph of a node. -/
  | morph (nodeId id : String)
  /-- A field of nodes. -/
  | field (name : String)
  deriving DecidableEq

/-- The references of a record: its source, and the morph of the source that it names. -/
def recordReferences (source : String) (morphId : Option String) : List Reference :=
  .node source :: morphId.toList.map (.morph source)

/-- The references of an operation. -/
def Operation.references (op : Operation) : List Reference :=
  match op.action with
  | .addMorph record => [.node record.nodeId]
  | .addRelation record => .target record.target :: recordReferences record.source record.morphId
  | .addAttribute record => recordReferences record.source record.morphId
  | .applyFunction record => recordReferences record.source record.morphId
  | .updateField record => [.node record.nodeId, .field record.field]
  | .addNode _ | .setDescription _ | .setCurrency _ => []

end NoteGraph
