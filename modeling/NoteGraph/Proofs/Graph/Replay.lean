import NoteGraph.Proofs.Graph.Assembly

/-!
# What replaying an operation does

A record belongs to morphs, and these list it. Replaying an operation makes at most one
record and joins it to at most one morph of its source (`Graph.Makes`), and changes nothing
else that a record or a morph knows of the other. All that a whole stream keeps is derived
from this.
-/

namespace NoteGraph

/-- The kind of the record that an operation makes, its source and the morph that it names. -/
def Operation.record? (op : Operation) : Option (RecordKind × String × Option String) :=
  match op.action with
  | .addRelation r => some (.relation, r.source, r.morphId)
  | .addAttribute r => some (.attribute, r.source, r.morphId)
  | .applyFunction r => some (.attribute, r.source, r.morphId)
  | _ => none

/-- The records of a kind that a morph lists. -/
def Morph.listed (m : Morph) : RecordKind → List String
  | .relation => m.relationIds
  | .attribute => m.attributeIds

theorem Morph.listed_list (m : Morph) (kind kind' : RecordKind) (id : String) :
    (m.list kind id).listed kind' =
      if kind' = kind then m.listed kind' ++ [id] else m.listed kind' := by
  cases kind <;> cases kind' <;> rfl

@[simp] theorem Morph.morphId_list (m : Morph) (kind : RecordKind) (id : String) :
    (m.list kind id).morphId = m.morphId := by
  cases kind <;> rfl

/-! ### Links -/

/-- Records, each with the morphs it belongs to. -/
abbrev Links := List (String × List String)

namespace Links

/-- A record with a morph among its own. -/
def Has (links : Links) (id morphId : String) : Prop :=
  ∃ link ∈ links, link.1 = id ∧ morphId ∈ link.2

/-- The records with one made, unless it is there. -/
def make (links : Links) (id : String) : Links := addFirst Prod.fst links (id, [])

/-- The records with one joined to a morph. -/
def join (links : Links) (id morphId : String) : Links :=
  links.map fun link => if link.1 == id then (link.1, link.2 ++ [morphId]) else link

section View

variable {α : Type} (view : α → String × List String) {id morphId : String} {records : List α}

theorem has_map_iff : (records.any fun r => (view r).1 == id && (view r).2.contains morphId) =
    true ↔ Has (records.map view) id morphId := by
  simp [Has, List.any_eq_true]

theorem map_join {f : α → α} (hf : ∀ r, view (f r) =
      if (view r).1 == id then ((view r).1, (view r).2 ++ [morphId]) else view r) :
    (records.map f).map view = join (records.map view) id morphId := by
  rw [join, List.map_map, List.map_map]
  exact List.map_congr_left fun r _ => hf r

end View

end Links

namespace Graph

/-- The morphs of all nodes. -/
def morphs (g : Graph) : List Morph := g.nodes.flatMap Node.morphs

/-- The records of a kind with their morphs. -/
def links (g : Graph) : RecordKind → Links
  | .relation => g.edges.map fun e => (e.id, e.morphIds)
  | .attribute => g.attributes.map fun a => (a.id, a.morphIds)

/-- What the making of a record under a morph of its source does: a record of an unknown node
or morph is made and reported, one that has its morph already stays as it is, and any other
joins its morph, which lists it. -/
inductive Makes (kind : RecordKind) (id source : String) (morphId : Option String)
    (g g' : Graph) : Prop where
  | reported (e : GraphError) (target : g.targetMorph kind id source morphId = .error e)
      (nodes : g'.nodes = g.nodes) (errors : g'.errors = g.errors ++ [e])
      (links : g'.links = Function.update g.links kind ((g.links kind).make id))
  | kept (m : String) (target : g.targetMorph kind id source morphId = .ok m)
      (has : ((g.links kind).make id).Has id m)
      (nodes : g'.nodes = g.nodes) (errors : g'.errors = g.errors)
      (links : g'.links = Function.update g.links kind ((g.links kind).make id))
  | joined (m : String) (target : g.targetMorph kind id source morphId = .ok m)
      (new : ¬((g.links kind).make id).Has id m)
      (nodes : g'.nodes = (g.listUnder kind id source m).nodes) (errors : g'.errors = g.errors)
      (links : g'.links = Function.update g.links kind (((g.links kind).make id).join id m))

/-- Records of a kind are made and joined to morphs, each by a change of its own to the
graph. -/
structure MakesBy (kind : RecordKind) (id source : String) (make : Graph → Graph)
    (has : Graph → String → Bool) (join : Graph → String → Graph) : Prop where
  make_nodes : ∀ g, (make g).nodes = g.nodes
  make_errors : ∀ g, (make g).errors = g.errors
  make_links : ∀ g, (make g).links = Function.update g.links kind ((g.links kind).make id)
  has_iff : ∀ g m, has g m = true ↔ (g.links kind).Has id m
  join_nodes : ∀ g m, (join g m).nodes = (g.listUnder kind id source m).nodes
  join_errors : ∀ g m, (join g m).errors = g.errors
  join_links : ∀ g m, (join g m).links = Function.update g.links kind ((g.links kind).join id m)

theorem MakesBy.makes {kind : RecordKind} {id source : String} {make : Graph → Graph}
    {has : Graph → String → Bool} {join : Graph → String → Graph}
    (h : MakesBy kind id source make has join) (morphId : Option String) {g g' : Graph}
    (heq : g' = match g.targetMorph kind id source morphId with
      | .error e => make (g.report e)
      | .ok m => if has (make g) m then make g else join (make g) m) :
    Makes kind id source morphId g g' := by
  cases htarget : g.targetMorph kind id source morphId with
  | error e =>
    rw [htarget] at heq
    subst heq
    exact .reported e htarget (h.make_nodes _) (h.make_errors _) (h.make_links _)
  | ok m =>
    rw [htarget] at heq
    have hmade : (make g).links kind = (g.links kind).make id := by
      rw [h.make_links, Function.update_self]
    have hhas := h.has_iff (make g) m
    rw [hmade] at hhas
    simp only at heq
    by_cases hg : has (make g) m = true
    · rw [if_pos hg] at heq
      subst heq
      exact .kept m htarget (hhas.mp hg) (h.make_nodes g) (h.make_errors g) (h.make_links g)
    · rw [if_neg hg] at heq
      subst heq
      refine .joined m htarget (mt hhas.mpr hg) ?_ ?_ ?_
      · simp only [h.join_nodes, listUnder, modifyNode, h.make_nodes]
      · rw [h.join_errors, h.make_errors]
      · rw [h.join_links, hmade, h.make_links, Function.update_idem]

/-! ### Edges and attributes -/

theorem links_setEdges (g : Graph) (edges : List Edge) :
    { g with edges }.links =
      Function.update g.links .relation (edges.map fun e => (e.id, e.morphIds)) := by
  funext kind
  cases kind <;> rfl

theorem links_setAttributes (g : Graph) (attributes : List Attribute) :
    { g with attributes }.links =
      Function.update g.links .attribute (attributes.map fun a => (a.id, a.morphIds)) := by
  funext kind
  cases kind <;> rfl

theorem makesBy_edge (e : Edge) (source : String) (h : e.morphIds = []) :
    MakesBy .relation e.id source (makeEdge e)
      (fun g m => g.edges.any fun other => other.id == e.id && other.morphIds.contains m)
      (joinEdge e.id source) where
  make_nodes g := by rw [makeEdge_eq]
  make_errors g := by rw [makeEdge_eq]
  make_links g := by
    rw [makeEdge_eq, links_setEdges, map_addFirst Edge.id Prod.fst fun _ => rfl, h]
    rfl
  has_iff g m := Links.has_map_iff fun e : Edge => (e.id, e.morphIds)
  join_nodes g m := rfl
  join_errors g m := rfl
  join_links g m := by
    rw [joinEdge, links_setEdges]
    refine congrArg (Function.update g.links .relation) (Links.map_join _ fun other => ?_)
    split_ifs <;> rfl

theorem makesBy_attribute (a : Attribute) (source : String) (h : a.morphIds = []) :
    MakesBy .attribute a.id source (makeAttribute a)
      (fun g m => g.attributes.any fun other => other.id == a.id && other.morphIds.contains m)
      (joinAttribute a.id source) where
  make_nodes g := by rw [makeAttribute_eq]
  make_errors g := by rw [makeAttribute_eq]
  make_links g := by
    rw [makeAttribute_eq, links_setAttributes, map_addFirst Attribute.id Prod.fst fun _ => rfl, h]
    rfl
  has_iff g m := Links.has_map_iff fun a : Attribute => (a.id, a.morphIds)
  join_nodes g m := rfl
  join_errors g m := rfl
  join_links g m := by
    rw [joinAttribute, links_setAttributes]
    refine congrArg (Function.update g.links .attribute) (Links.map_join _ fun other => ?_)
    split_ifs <;> rfl

theorem makes_addRelation (g : Graph) (id : String) (record : RelationRecord) :
    Makes .relation id record.source record.morphId g (g.addRelation id record) :=
  (makesBy_edge (edgeOf id record) record.source rfl).makes record.morphId
    (g.addRelation_eq id record)

theorem makes_addAttribute (g : Graph) (made : Attribute) (h : made.morphIds = [])
    (morphId : Option String) :
    Makes .attribute made.id made.sourceId morphId g (g.addAttribute made morphId) :=
  (makesBy_attribute made made.sourceId h).makes morphId (g.addAttribute_eq made morphId)

/-! ### Operations -/

theorem morphs_updateField (g : Graph) (record : FieldRecord) :
    (g.updateField record).morphs = g.morphs := by
  unfold updateField
  split_ifs
  · rfl
  · rfl
  · simp only [morphs, modifyNode, List.flatMap_map]
    refine List.flatMap_congr fun n _ => ?_
    split_ifs <;> rfl

theorem links_updateField (g : Graph) (record : FieldRecord) :
    (g.updateField record).links = g.links := by
  obtain ⟨hedges, hattributes⟩ := g.records_updateField record
  funext kind
  cases kind with
  | relation => rw [links, hedges, links]
  | «attribute» => rw [links, hattributes, links]

/-- A replayed operation makes a record, sets a field, or leaves nodes, records and errors as
they are. -/
theorem replay_cases (g : Graph) (op : Operation) :
    (∃ kind source morphId, op.record? = some (kind, source, morphId) ∧
        Makes kind op.id source morphId g (g.replay op)) ∨
      (∃ record, op.action = .updateField record ∧ g.replay op = g.updateField record) ∨
      ((g.replay op).nodes = g.nodes ∧ (g.replay op).links = g.links ∧
        (g.replay op).errors = g.errors ∧ op.record? = none ∧
        ∀ record, op.action ≠ .updateField record) := by
  unfold replay Operation.record?
  cases op.action with
  | addRelation record => exact Or.inl ⟨_, _, _, rfl, g.makes_addRelation op.id record⟩
  | addAttribute record =>
    exact Or.inl ⟨_, _, _, rfl, g.makes_addAttribute (attributeOf op.id record) rfl _⟩
  | applyFunction record =>
    exact Or.inl ⟨_, _, _, rfl, g.makes_addAttribute (attributeOfFunction op.id record) rfl _⟩
  | updateField record => exact Or.inr (Or.inl ⟨record, rfl, rfl⟩)
  | addNode | addMorph | setDescription | setCurrency =>
    exact Or.inr (Or.inr ⟨rfl, rfl, rfl, rfl, fun _ h => nomatch h⟩)

end Graph

end NoteGraph
