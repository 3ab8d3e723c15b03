import NoteGraph.Json.Basic

/-!
# Operations

A text is compiled into a stream of operations, and a graph is assembled by replaying
the stream. An operation has the identifier of the record it makes, its action, and the
kind of text it came from.
-/

namespace NoteGraph

/-- Declares a node. -/
structure NodeRecord where
  baseName : String
  displayName : String
  role : String
  adjective : Option String := none
  quantifier : Option String := none
  parentTypes : List String := []
  deriving DecidableEq

/-- Declares a morph, a named view of a node. -/
structure MorphRecord where
  nodeId : String
  morphId : String
  name : String
  deriving DecidableEq

/-- Relates two nodes under a morph of the source. -/
structure RelationRecord where
  source : String
  target : String
  name : String
  weight : Number := .int 1
  morphId : Option String := none
  /-- How the text spells the target. -/
  targetSurface : Option String := none
  deriving DecidableEq

/-- Gives a node a named value under one of its morphs. -/
structure AttributeRecord where
  source : String
  name : String
  value : String
  unit : Option String := none
  adverb : Option String := none
  modality : Option String := none
  quantifier : Option String := none
  morphId : Option String := none
  deriving DecidableEq

/-- Applies a function to a node under one of its morphs. -/
structure FunctionRecord where
  source : String
  name : String
  morphId : Option String := none
  deriving DecidableEq

/-- Sets a field of a node. -/
structure FieldRecord where
  nodeId : String
  field : String
  value : String
  deriving DecidableEq

/-- What an operation does. -/
inductive Action where
  | addNode (record : NodeRecord)
  | addMorph (record : MorphRecord)
  | addRelation (record : RelationRecord)
  | addAttribute (record : AttributeRecord)
  | applyFunction (record : FunctionRecord)
  | updateField (record : FieldRecord)
  | setDescription (description : String)
  | setCurrency (currency : String)
  deriving DecidableEq

/-- The origin of operations from node blocks. -/
def textOrigin : String := "cnl"

/-- The origin of operations from mindmaps. -/
def mindmapOrigin : String := "mindmap"

/-- An operation of a stream. -/
structure Operation where
  id : String
  action : Action
  origin : String := textOrigin
  deriving DecidableEq

/-- The node that an operation declares. -/
def Operation.node? (op : Operation) : Option NodeRecord :=
  match op.action with
  | .addNode record => some record
  | _ => none

/-- The relation that an operation makes. -/
def Operation.relation? (op : Operation) : Option RelationRecord :=
  match op.action with
  | .addRelation record => some record
  | _ => none

/-! ### Written form -/

/-- The word for an action. -/
def Action.kind : Action → String
  | addNode _ => "AddNode"
  | addMorph _ => "AddMorph"
  | addRelation _ => "AddRelation"
  | addAttribute _ => "AddAttribute"
  | applyFunction _ => "ApplyFunction"
  | updateField _ => "UpdateNodeField"
  | setDescription _ => "SetGraphDescription"
  | setCurrency _ => "SetCurrency"

/-- The fields of an action. -/
def Action.toJson : Action → Json
  | addNode r => .object [
      ("base_name", .string r.baseName), ("display_name", .string r.displayName),
      ("role", .string r.role), ("adjective", Json.optionalString r.adjective),
      ("quantifier", Json.optionalString r.quantifier),
      ("parent_types", Json.strings r.parentTypes)]
  | addMorph r => .object [
      ("node_id", .string r.nodeId), ("morph_id", .string r.morphId),
      ("name", .string r.name)]
  | addRelation r => .object [
      ("source", .string r.source), ("target", .string r.target), ("name", .string r.name),
      ("weight", .number r.weight), ("morph_id", Json.optionalString r.morphId),
      ("target_surface", Json.optionalString r.targetSurface)]
  | addAttribute r => .object [
      ("source", .string r.source), ("name", .string r.name), ("value", .string r.value),
      ("unit", Json.optionalString r.unit), ("adverb", Json.optionalString r.adverb),
      ("modality", Json.optionalString r.modality),
      ("quantifier", Json.optionalString r.quantifier),
      ("morph_id", Json.optionalString r.morphId)]
  | applyFunction r => .object [
      ("source", .string r.source), ("name", .string r.name),
      ("morph_id", Json.optionalString r.morphId)]
  | updateField r => .object [
      ("node_id", .string r.nodeId), ("field", .string r.field), ("value", .string r.value)]
  | setDescription description => .object [("description", .string description)]
  | setCurrency currency => .object [("currency", .string currency)]

/-- An operation with its fields. -/
def Operation.toJson (op : Operation) : Json :=
  .object [("id", .string op.id), ("payload", op.action.toJson),
    ("origin", .string op.origin), ("type", .string op.action.kind)]

/-- An operation whose action is none of those that a graph is assembled from. -/
structure UnsupportedOperation where
  kind : String
  deriving DecidableEq

/-- What is reported of an unsupported operation. -/
def UnsupportedOperation.message (e : UnsupportedOperation) : String :=
  "Unsupported operation type: " ++ e.kind

end NoteGraph
