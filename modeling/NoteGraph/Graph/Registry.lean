import NoteGraph.Graph.Basic
import NoteGraph.Keyed

/-!
# The registry of morphs

A registry answers which records belong to a morph and which morphs a record belongs
to, without a search through the graph. A morph that is registered again replaces what
was registered of it before.
-/

namespace NoteGraph

/-- The morphs filed under each key, in the order of filing. A key stays when its last
morph is removed. -/
structure MorphIndex where
  entries : List (String × List String) := []
  deriving DecidableEq

namespace MorphIndex

/-- The morphs under a key. -/
def get (x : MorphIndex) (key : String) : List String := (x.entries.lookup key).getD []

/-- Files a morph under a key. -/
def add (x : MorphIndex) (key morphId : String) : MorphIndex :=
  ⟨Keyed.put x.entries key (x.get key ++ [morphId])⟩

/-- Removes the first filing of a morph under a key; there must be one. -/
def remove? (x : MorphIndex) (key morphId : String) : Option MorphIndex :=
  if (x.get key).contains morphId then
    some ⟨Keyed.put x.entries key ((x.get key).erase morphId)⟩
  else none

/-- Files a morph under each of some keys. -/
def addAll (x : MorphIndex) (keys : List String) (morphId : String) : MorphIndex :=
  keys.foldl (fun x key => x.add key morphId) x

/-- Removes a filing of a morph under each of some keys. -/
def removeAll? (x : MorphIndex) (keys : List String) (morphId : String) : Option MorphIndex :=
  keys.foldlM (fun x key => x.remove? key morphId) x

/-- Files a morph under some keys in place of those under which it was filed before. -/
def refile? (x : MorphIndex) (before keys : List String) (morphId : String) :
    Option MorphIndex :=
  (x.removeAll? before morphId).map fun x => x.addAll keys morphId

end MorphIndex

/-- The registered morphs by their identifiers, and the morphs of each node, relation and
attribute. -/
structure Registry where
  morphs : List (String × Morph) := []
  nodeMorphs : MorphIndex := {}
  relationMorphs : MorphIndex := {}
  attributeMorphs : MorphIndex := {}
  deriving DecidableEq

/-- The numbers of keys in the four parts of a registry. -/
structure RegistryStats where
  morphs : Nat
  nodes : Nat
  relations : Nat
  attributes : Nat
  deriving DecidableEq

namespace Registry

/-- A registered morph by its identifier. -/
def morph? (r : Registry) (morphId : String) : Option Morph := r.morphs.lookup morphId

/-- Registers a morph in place of what was registered under its identifier, which must be
filed as it was registered. -/
def add? (r : Registry) (m : Morph) : Option Registry := do
  let before (keys : Morph → List String) : List String :=
    ((r.morph? m.morphId).map keys).getD []
  let nodeMorphs ← r.nodeMorphs.refile? (before fun m => [m.nodeId]) [m.nodeId] m.morphId
  let relationMorphs ←
    r.relationMorphs.refile? (before (·.relationIds)) m.relationIds m.morphId
  let attributeMorphs ←
    r.attributeMorphs.refile? (before (·.attributeIds)) m.attributeIds m.morphId
  return {
    morphs := Keyed.put r.morphs m.morphId m
    nodeMorphs, relationMorphs, attributeMorphs }

/-- Registers a morph; a registry that does not allow it stays as it is. -/
def add (r : Registry) (m : Morph) : Registry := (r.add? m).getD r

/-- The registry of the morphs of a graph. -/
def ofGraph (g : Graph) : Registry :=
  (g.nodes.flatMap fun n => n.morphs.map fun m => { m with nodeId := n.id }).foldl add {}

/-! ### Queries -/

/-- The morphs of a node. -/
def morphsOfNode (r : Registry) (nodeId : String) : List Morph :=
  (r.nodeMorphs.get nodeId).filterMap r.morph?

/-- The first morph of a node with a name. -/
def findMorph? (r : Registry) (nodeId name : String) : Option Morph :=
  (r.morphsOfNode nodeId).find? (·.name == name)

/-- The relations of a morph. -/
def relationsOf (r : Registry) (morphId : String) : List String :=
  ((r.morph? morphId).map (·.relationIds)).getD []

/-- The attributes of a morph. -/
def attributesOf (r : Registry) (morphId : String) : List String :=
  ((r.morph? morphId).map (·.attributeIds)).getD []

/-- The morphs of a relation. -/
def morphsOfRelation (r : Registry) (id : String) : List String := r.relationMorphs.get id

/-- The morphs of an attribute. -/
def morphsOfAttribute (r : Registry) (id : String) : List String := r.attributeMorphs.get id

/-- The numbers of morphs and of keys in each index. -/
def stats (r : Registry) : RegistryStats :=
  ⟨r.morphs.length, r.nodeMorphs.entries.length, r.relationMorphs.entries.length,
    r.attributeMorphs.entries.length⟩

/-! ### Visibility -/

/-- The first record of each identifier among those whose identifier is visible; `seen`
holds the identifiers already kept. -/
def keepVisible {α : Type} (idOf : α → String) (visible seen : List String) :
    List α → List α
  | [] => []
  | a :: rest =>
    if visible.contains (idOf a) && !seen.contains (idOf a) then
      a :: keepVisible idOf visible (idOf a :: seen) rest
    else keepVisible idOf visible seen rest

/-- The edges visible under any of some morphs, each once. -/
def filterRelations (r : Registry) (edges : List Edge) (morphIds : List String) : List Edge :=
  keepVisible Edge.id (morphIds.flatMap r.relationsOf) [] edges

/-- The attributes visible under any of some morphs, each once. -/
def filterAttributes (r : Registry) (attributes : List Attribute) (morphIds : List String) :
    List Attribute :=
  keepVisible Attribute.id (morphIds.flatMap r.attributesOf) [] attributes

end Registry

/-- The fields of the numbers of a registry. -/
def RegistryStats.toJson (s : RegistryStats) : Json :=
  .object [("total_morphs", Json.int s.morphs), ("total_nodes", Json.int s.nodes),
    ("total_relations", Json.int s.relations), ("total_attributes", Json.int s.attributes)]

end NoteGraph
