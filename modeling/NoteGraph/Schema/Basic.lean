import NoteGraph.Json.Basic

/-!
# Schemas

A schema catalog lists the known types of nodes, relations, attributes, transitions and
functions. Functions are described only; their expressions are never evaluated.
-/

namespace NoteGraph.Schema

/-- A type of nodes. -/
structure NodeType where
  name : String
  description : String := ""
  parentTypes : List String := []
  deriving DecidableEq

/-- A type of relations. -/
structure RelationType where
  name : String
  description : String := ""
  /-- The roles that a source may have; none means any. -/
  domain : List String := []
  range : List String := []
  symmetric : Option Bool := none
  transitive : Option Bool := none
  inverseName : Option String := none
  aliases : List String := []
  deriving DecidableEq

/-- A part of a composite value. -/
structure Component where
  type : String
  unit : Option String
  description : String
  deriving DecidableEq

/-- A type of attributes. -/
structure AttributeType where
  name : String
  dataType : String
  description : String := ""
  unit : Option String := none
  domain : List String := []
  allowedValues : Option (List String) := none
  complexType : Option String := none
  parts : Option (List (String × Component)) := none
  deriving DecidableEq

/-- A type of transitions. -/
structure TransitionType where
  name : String
  description : String := ""
  inputs : List String := []
  outputs : List String := []
  deriving DecidableEq

/-- A type of functions. -/
structure FunctionType where
  name : String
  expression : String
  scope : List String := []
  description : Option String := none
  requiredAttributes : List String := []
  deriving DecidableEq

/-- The known types. -/
structure Catalog where
  nodeTypes : List NodeType := []
  relationTypes : List RelationType := []
  attributeTypes : List AttributeType := []
  transitionTypes : List TransitionType := []
  functionTypes : List FunctionType := []
  deriving DecidableEq

/-! ### Merging -/

/-- A list with an entry put in: in the place of the entry of its name, or at the end. -/
def putByName {α : Type} (name : α → String) (entries : List α) (entry : α) : List α :=
  if entries.any (name · == name entry) then
    entries.map fun other => if name other == name entry then entry else other
  else entries ++ [entry]

/-- Two lists as one without repeated names: each name at its first place with its last
entry. -/
def mergeByName {α : Type} (name : α → String) (first second : List α) : List α :=
  (first ++ second).foldl (putByName name) []

namespace Catalog

/-- A catalog in which the entries of another replace those of the same names. -/
def mergedWith (c d : Catalog) : Catalog :=
  { nodeTypes := mergeByName NodeType.name c.nodeTypes d.nodeTypes
    relationTypes := mergeByName RelationType.name c.relationTypes d.relationTypes
    attributeTypes := mergeByName AttributeType.name c.attributeTypes d.attributeTypes
    transitionTypes := mergeByName TransitionType.name c.transitionTypes d.transitionTypes
    functionTypes := mergeByName FunctionType.name c.functionTypes d.functionTypes }

/-! ### Look-up -/

/-- The first type of nodes of a name. -/
def nodeType? (c : Catalog) (name : String) : Option NodeType :=
  c.nodeTypes.find? (·.name == name)

/-- The first type of relations of a name, or else the first with the name as alias. -/
def relationType? (c : Catalog) (name : String) : Option RelationType :=
  (c.relationTypes.find? (·.name == name)).or
    (c.relationTypes.find? (·.aliases.contains name))

/-- The first type of attributes of a name. -/
def attributeType? (c : Catalog) (name : String) : Option AttributeType :=
  c.attributeTypes.find? (·.name == name)

/-- The first type of transitions of a name. -/
def transitionType? (c : Catalog) (name : String) : Option TransitionType :=
  c.transitionTypes.find? (·.name == name)

/-- The first type of functions of a name. -/
def functionType? (c : Catalog) (name : String) : Option FunctionType :=
  c.functionTypes.find? (·.name == name)

/-- The parents of a role in the first type of its name. -/
def parentsOf (c : Catalog) (role : String) : List String :=
  ((c.nodeType? role).map (·.parentTypes)).getD []

/-- The names of a list that are new to `seen`, each once. -/
def newNames (seen : List String) : List String → List String
  | [] => []
  | name :: rest =>
    if seen.contains name then newNames seen rest
    else name :: newNames (name :: seen) rest

/-- The roles seen after following the parents of those in the queue, first come first
served. Every role enters the queue once, so `fuel` for each parent in the catalog
suffices. -/
def ancestorsFrom (c : Catalog) : Nat → List String → List String → List String
  | 0, seen, _ => seen
  | _ + 1, seen, [] => seen
  | fuel + 1, seen, role :: queue =>
    let parents := newNames seen (c.parentsOf role)
    c.ancestorsFrom fuel (seen ++ parents) (queue ++ parents)

/-- A role, followed by its ancestors, nearest first. -/
def roleAncestors (c : Catalog) (role : String) : List String :=
  c.ancestorsFrom ((c.nodeTypes.flatMap (·.parentTypes)).length + 1) [role] [role]

end Catalog

end NoteGraph.Schema
