import NoteGraph.Json.Basic

/-!
# Graphs

A graph has nodes, edges between them and attributes of them. Every node has a basic
morph and any number of others; an edge or attribute belongs to the morphs of its
source that list it.
-/

namespace NoteGraph

/-- A view of a node: the edges and attributes that belong to it. -/
structure Morph where
  morphId : String
  nodeId : String
  name : String
  relationIds : List String := []
  attributeIds : List String := []
  deriving DecidableEq

/-- A node with its morphs, the basic one first. -/
structure Node where
  id : String
  baseName : String
  name : String
  displayName : String
  role : String
  adjective : Option String := none
  quantifier : Option String := none
  description : Option String := none
  parentTypes : List String := []
  basic : Morph
  others : List Morph := []
  /-- The identifier of the active morph, which is the basic one from the start. -/
  nbh : String := ""
  deriving DecidableEq

/-- A weighted edge and the morphs it belongs to. -/
structure Edge where
  id : String
  sourceId : String
  targetId : String
  name : String
  weight : Number := .int 1
  morphIds : List String := []
  deriving DecidableEq

/-- A named value of a node and the morphs it belongs to. -/
structure Attribute where
  id : String
  sourceId : String
  name : String
  value : String
  unit : Option String := none
  adverb : Option String := none
  modality : Option String := none
  quantifier : Option String := none
  morphIds : List String := []
  deriving DecidableEq

/-- The records that belong to morphs. -/
inductive RecordKind where
  | relation
  | attribute
  deriving DecidableEq

/-- A reference that a graph cannot resolve. -/
inductive GraphError where
  | morphOfUnknownNode (name nodeId : String)
  | recordOfUnknownNode (kind : RecordKind) (id nodeId : String)
  | recordOfUnknownMorph (kind : RecordKind) (id morphId nodeId : String)
  | fieldOfUnknownNode (field nodeId : String)
  | unsupportedField (field nodeId : String)
  deriving DecidableEq

/-- The word for a kind of record. -/
def RecordKind.name : RecordKind → String
  | relation => "Relation"
  | .attribute => "Attribute"

/-- What is reported of an unresolved reference. -/
def GraphError.message : GraphError → String
  | morphOfUnknownNode name nodeId =>
    "Morph \"" ++ name ++ "\" refers to unknown node \"" ++ nodeId ++ "\""
  | recordOfUnknownNode kind id nodeId =>
    kind.name ++ " \"" ++ id ++ "\" refers to unknown node \"" ++ nodeId ++ "\""
  | recordOfUnknownMorph kind id morphId nodeId =>
    kind.name ++ " \"" ++ id ++ "\" refers to unknown morph \"" ++ morphId ++
      "\" of node \"" ++ nodeId ++ "\""
  | fieldOfUnknownNode field nodeId =>
    "Update of field \"" ++ field ++ "\" refers to unknown node \"" ++ nodeId ++ "\""
  | unsupportedField field nodeId =>
    "Unsupported node field \"" ++ field ++ "\" on node \"" ++ nodeId ++ "\""

/-- A graph, with the references that could not be resolved when it was assembled. -/
structure Graph where
  nodes : List Node := []
  edges : List Edge := []
  attributes : List Attribute := []
  description : Option String := none
  currency : Option String := none
  errors : List GraphError := []
  deriving DecidableEq

/-! ### Queries -/

/-- The morphs of a node. -/
def Node.morphs (n : Node) : List Morph := n.basic :: n.others

/-- A morph of a node by its identifier. -/
def Node.morph? (n : Node) (morphId : String) : Option Morph :=
  n.morphs.find? (·.morphId == morphId)

namespace Graph

/-- A node by its identifier. -/
def node? (g : Graph) (id : String) : Option Node := g.nodes.find? (·.id == id)

/-- The edges from a node, all or those of one name. -/
def edgesFrom (g : Graph) (nodeId : String) (name : Option String) : List Edge :=
  g.edges.filter fun e => e.sourceId == nodeId && name.all (e.name == ·)

/-- The attributes of a node, all or those of one name. -/
def attributesOf (g : Graph) (nodeId : String) (name : Option String) : List Attribute :=
  g.attributes.filter fun a => a.sourceId == nodeId && name.all (a.name == ·)

end Graph

/-! ### Written form -/

/-- The fields of a morph. -/
def Morph.toJson (m : Morph) : Json :=
  .object [("morph_id", .string m.morphId), ("node_id", .string m.nodeId),
    ("name", .string m.name), ("relation_ids", Json.strings m.relationIds),
    ("attribute_ids", Json.strings m.attributeIds)]

/-- The fields of a node. -/
def Node.toJson (n : Node) : Json :=
  .object [("id", .string n.id), ("base_name", .string n.baseName), ("name", .string n.name),
    ("display_name", .string n.displayName), ("role", .string n.role),
    ("adjective", Json.optionalString n.adjective),
    ("quantifier", Json.optionalString n.quantifier),
    ("description", Json.optionalString n.description),
    ("parent_types", Json.strings n.parentTypes),
    ("morphs", .array (n.morphs.map Morph.toJson)), ("nbh", .string n.nbh)]

/-- The fields of an edge. -/
def Edge.toJson (e : Edge) : Json :=
  .object [("id", .string e.id), ("source_id", .string e.sourceId),
    ("target_id", .string e.targetId), ("name", .string e.name), ("weight", .number e.weight),
    ("morph_ids", Json.strings e.morphIds)]

/-- The fields of an attribute. -/
def Attribute.toJson (a : Attribute) : Json :=
  .object [("id", .string a.id), ("source_id", .string a.sourceId), ("name", .string a.name),
    ("value", .string a.value), ("unit", Json.optionalString a.unit),
    ("adverb", Json.optionalString a.adverb), ("modality", Json.optionalString a.modality),
    ("quantifier", Json.optionalString a.quantifier), ("morph_ids", Json.strings a.morphIds)]

/-- An error; assembly knows of no line. -/
def GraphError.toJson (e : GraphError) : Json :=
  .object [("message", .string e.message), ("line", .null)]

/-- The fields of a graph. -/
def Graph.toJson (g : Graph) : Json :=
  .object [("nodes", .array (g.nodes.map Node.toJson)),
    ("edges", .array (g.edges.map Edge.toJson)),
    ("attributes", .array (g.attributes.map Attribute.toJson)),
    ("description", Json.optionalString g.description),
    ("currency", Json.optionalString g.currency),
    ("errors", .array (g.errors.map GraphError.toJson))]

end NoteGraph
