import NoteGraph.Graph.Assembly
import NoteGraph.Proofs.Graph.Firsts

/-!
# The records of an assembled graph

The first operation that makes a record of an identifier decides what the record is; all
later ones only add morphs to it. So a graph keeps what every operation of a stream says
exactly when operations of one identifier say the same.
-/

namespace NoteGraph

/-! ### What an operation makes -/

/-- The edge that an operation makes, before it belongs to a morph. -/
def Operation.edge? (op : Operation) : Option Edge :=
  match op.action with
  | .addRelation r =>
    some { id := op.id, sourceId := r.source, targetId := r.target, name := r.name
           weight := r.weight }
  | _ => none

/-- The attribute that an operation makes, before it belongs to a morph. -/
def Operation.attribute? (op : Operation) : Option Attribute :=
  match op.action with
  | .addAttribute r => some (Graph.attributeOf op.id r)
  | .applyFunction r => some (Graph.attributeOfFunction op.id r)
  | _ => none

theorem Operation.id_of_mem_edge? {op : Operation} : ∀ e ∈ op.edge?, e.id = op.id := by
  intro e he
  unfold Operation.edge? at he
  split at he
  · rw [← Option.some.inj he]
  · cases he

theorem Operation.id_of_mem_attribute? {op : Operation} :
    ∀ v ∈ op.attribute?, v.id = op.id := by
  intro v hv
  unfold Operation.attribute? at hv
  split at hv
  · rw [← Option.some.inj hv]
    rfl
  · rw [← Option.some.inj hv]
    rfl
  · cases hv

/-- An edge without its morphs. -/
def Edge.bare (e : Edge) : Edge := { e with morphIds := [] }

/-- An attribute without its morphs. -/
def Attribute.bare (a : Attribute) : Attribute := { a with morphIds := [] }

namespace Graph

/-! ### How records are made -/

/-- The edge of a relation, before it belongs to a morph. -/
def edgeOf (id : String) (record : RelationRecord) : Edge :=
  { id, sourceId := record.source, targetId := record.target, name := record.name
    weight := record.weight }

/-- The graph with an edge, unless its identifier is taken. -/
def makeEdge (e : Edge) (g : Graph) : Graph :=
  if g.edges.any (·.id == e.id) then g else { g with edges := g.edges ++ [e] }

/-- The graph with an edge joined to a morph of its source. -/
def joinEdge (id source : String) (g : Graph) (morphId : String) : Graph :=
  { g.listUnder .relation id source morphId with
    edges := g.edges.map fun e =>
      if e.id == id then { e with morphIds := e.morphIds ++ [morphId] } else e }

/-- The graph with an attribute, unless its identifier is taken. -/
def makeAttribute (a : Attribute) (g : Graph) : Graph :=
  if g.attributes.any (·.id == a.id) then g else { g with attributes := g.attributes ++ [a] }

/-- The graph with an attribute joined to a morph of its source. -/
def joinAttribute (id source : String) (g : Graph) (morphId : String) : Graph :=
  { g.listUnder .attribute id source morphId with
    attributes := g.attributes.map fun a =>
      if a.id == id then { a with morphIds := a.morphIds ++ [morphId] } else a }

theorem makeEdge_eq (e : Edge) (g : Graph) :
    g.makeEdge e = { g with edges := addFirst Edge.id g.edges e } := by
  unfold makeEdge addFirst
  split_ifs <;> rfl

theorem makeAttribute_eq (a : Attribute) (g : Graph) :
    g.makeAttribute a = { g with attributes := addFirst Attribute.id g.attributes a } := by
  unfold makeAttribute addFirst
  split_ifs <;> rfl

/-- The edge of a relation is made, and joins its morph if it does not have it. -/
theorem addRelation_eq (g : Graph) (id : String) (record : RelationRecord) :
    g.addRelation id record =
      match g.targetMorph .relation id record.source record.morphId with
      | .error e => (g.report e).makeEdge (edgeOf id record)
      | .ok m =>
        if (g.makeEdge (edgeOf id record)).edges.any fun e =>
            e.id == id && e.morphIds.contains m then g.makeEdge (edgeOf id record)
        else (g.makeEdge (edgeOf id record)).joinEdge id record.source m := by
  unfold addRelation
  cases g.targetMorph .relation id record.source record.morphId <;> rfl

theorem addAttribute_eq (g : Graph) (made : Attribute) (morphId : Option String) :
    g.addAttribute made morphId =
      match g.targetMorph .attribute made.id made.sourceId morphId with
      | .error e => (g.report e).makeAttribute made
      | .ok m =>
        if (g.makeAttribute made).attributes.any fun a =>
            a.id == made.id && a.morphIds.contains m then g.makeAttribute made
        else (g.makeAttribute made).joinAttribute made.id made.sourceId m := by
  unfold addAttribute
  simp only
  cases g.targetMorph .attribute made.id made.sourceId morphId <;> rfl

theorem bare_edges_makeEdge (e : Edge) (g : Graph) :
    (g.makeEdge e).edges.map Edge.bare = addFirst Edge.id (g.edges.map Edge.bare) e.bare := by
  rw [makeEdge_eq]
  exact map_addFirst Edge.id Edge.id (f := Edge.bare) (fun _ => rfl) g.edges e

theorem bare_attributes_makeAttribute (a : Attribute) (g : Graph) :
    (g.makeAttribute a).attributes.map Attribute.bare =
      addFirst Attribute.id (g.attributes.map Attribute.bare) a.bare := by
  rw [makeAttribute_eq]
  exact map_addFirst Attribute.id Attribute.id (f := Attribute.bare) (fun _ => rfl) g.attributes a

theorem bare_edges_joinEdge (id source : String) (g : Graph) (morphId : String) :
    (g.joinEdge id source morphId).edges.map Edge.bare = g.edges.map Edge.bare := by
  rw [joinEdge, List.map_map]
  refine List.map_congr_left fun e _ => ?_
  simp only [Function.comp_apply]
  split_ifs <;> rfl

theorem bare_attributes_joinAttribute (id source : String) (g : Graph) (morphId : String) :
    (g.joinAttribute id source morphId).attributes.map Attribute.bare =
      g.attributes.map Attribute.bare := by
  rw [joinAttribute, List.map_map]
  refine List.map_congr_left fun a _ => ?_
  simp only [Function.comp_apply]
  split_ifs <;> rfl

theorem bare_edges_addRelation (g : Graph) (id : String) (record : RelationRecord) :
    (g.addRelation id record).edges.map Edge.bare =
      addFirst Edge.id (g.edges.map Edge.bare) (edgeOf id record) := by
  rw [addRelation_eq]
  cases g.targetMorph .relation id record.source record.morphId with
  | error e => exact bare_edges_makeEdge (edgeOf id record) (g.report e)
  | ok m =>
    have hmade := bare_edges_makeEdge (edgeOf id record) g
    simp only
    split_ifs
    · exact hmade
    · exact (bare_edges_joinEdge id record.source _ m).trans hmade

theorem bare_attributes_addAttribute (g : Graph) (made : Attribute) (morphId : Option String) :
    (g.addAttribute made morphId).attributes.map Attribute.bare =
      addFirst Attribute.id (g.attributes.map Attribute.bare) made.bare := by
  rw [addAttribute_eq]
  cases g.targetMorph .attribute made.id made.sourceId morphId with
  | error e => exact bare_attributes_makeAttribute made (g.report e)
  | ok m =>
    have hmade := bare_attributes_makeAttribute made g
    simp only
    split_ifs
    · exact hmade
    · exact (bare_attributes_joinAttribute made.id made.sourceId _ m).trans hmade

theorem attributes_addRelation (g : Graph) (id : String) (record : RelationRecord) :
    (g.addRelation id record).attributes = g.attributes := by
  simp only [addRelation_eq, makeEdge_eq]
  cases g.targetMorph .relation id record.source record.morphId with
  | error e => rfl
  | ok m =>
    simp only
    split_ifs <;> rfl

theorem edges_addAttribute (g : Graph) (made : Attribute) (morphId : Option String) :
    (g.addAttribute made morphId).edges = g.edges := by
  simp only [addAttribute_eq, makeAttribute_eq]
  cases g.targetMorph .attribute made.id made.sourceId morphId with
  | error e => rfl
  | ok m =>
    simp only
    split_ifs <;> rfl

theorem records_updateField (g : Graph) (record : FieldRecord) :
    (g.updateField record).edges = g.edges ∧
      (g.updateField record).attributes = g.attributes := by
  unfold updateField
  split_ifs <;> exact ⟨rfl, rfl⟩

/-- A replayed operation adds its edge unless the identifier is taken. -/
theorem bare_edges_replay (g : Graph) (op : Operation) :
    (g.replay op).edges.map Edge.bare =
      op.edge?.toList.foldl (addFirst Edge.id) (g.edges.map Edge.bare) := by
  unfold replay Operation.edge?
  cases op.action with
  | addRelation record => exact g.bare_edges_addRelation op.id record
  | addAttribute record => rw [edges_addAttribute]; rfl
  | applyFunction record => rw [edges_addAttribute]; rfl
  | updateField record => rw [(g.records_updateField record).1]; rfl
  | addNode | addMorph | setDescription | setCurrency => rfl

theorem bare_attributes_replay (g : Graph) (op : Operation) :
    (g.replay op).attributes.map Attribute.bare =
      op.attribute?.toList.foldl (addFirst Attribute.id) (g.attributes.map Attribute.bare) := by
  unfold replay Operation.attribute?
  cases op.action with
  | addRelation record => rw [attributes_addRelation]; rfl
  | addAttribute record => exact g.bare_attributes_addAttribute _ record.morphId
  | applyFunction record => exact g.bare_attributes_addAttribute _ record.morphId
  | updateField record => rw [(g.records_updateField record).2]; rfl
  | addNode | addMorph | setDescription | setCurrency => rfl

/-! ### Whole streams -/

theorem records_declareNode (g : Graph) (op : Operation) :
    (g.declareNode op).edges = g.edges ∧ (g.declareNode op).attributes = g.attributes := by
  unfold declareNode
  cases op.action with
  | addNode record =>
    simp only [addNode]
    split_ifs <;> exact ⟨rfl, rfl⟩
  | _ => exact ⟨rfl, rfl⟩

theorem records_declareMorph (g : Graph) (op : Operation) :
    (g.declareMorph op).edges = g.edges ∧ (g.declareMorph op).attributes = g.attributes := by
  unfold declareMorph
  cases op.action with
  | addMorph record =>
    simp only [addMorph]
    cases g.node? record.nodeId with
    | none => exact ⟨rfl, rfl⟩
    | some node =>
      simp only
      split_ifs <;> exact ⟨rfl, rfl⟩
  | _ => exact ⟨rfl, rfl⟩

theorem records_foldl {f : Graph → Operation → Graph}
    (hf : ∀ g op, (f g op).edges = g.edges ∧ (f g op).attributes = g.attributes)
    (ops : List Operation) :
    ∀ g, (ops.foldl f g).edges = g.edges ∧ (ops.foldl f g).attributes = g.attributes := by
  induction ops with
  | nil => exact fun g => ⟨rfl, rfl⟩
  | cons op rest ih =>
    intro g
    rw [List.foldl_cons, (ih (f g op)).1, (ih (f g op)).2]
    exact hf g op

/-- Records that a replayed operation adds to unless their identifier is taken are, after a
stream, the first of each identifier. -/
theorem foldl_replay {α : Type} {key : α → String} {made? : Operation → Option α}
    (records : Graph → List α)
    (hstep : ∀ g op, records (replay g op) = (made? op).toList.foldl (addFirst key) (records g))
    (ops : List Operation) :
    ∀ g, records (ops.foldl replay g) = (ops.filterMap made?).foldl (addFirst key) (records g) := by
  induction ops with
  | nil => exact fun g => rfl
  | cons op rest ih =>
    intro g
    rw [List.foldl_cons, ih, hstep, List.filterMap_cons]
    cases made? op <;> rfl

/-- The edges of a graph without their morphs: the first of each identifier. -/
theorem bare_edges_ofOperations (ops : List Operation) :
    (ofOperations ops).edges.map Edge.bare =
      (ops.filterMap Operation.edge?).foldl (addFirst Edge.id) [] := by
  have hreplay := foldl_replay (fun g => g.edges.map Edge.bare) bare_edges_replay ops
  rw [ofOperations, hreplay, (records_foldl records_declareMorph ops _).1,
    (records_foldl records_declareNode ops _).1]
  rfl

theorem bare_attributes_ofOperations (ops : List Operation) :
    (ofOperations ops).attributes.map Attribute.bare =
      (ops.filterMap Operation.attribute?).foldl (addFirst Attribute.id) [] := by
  have hreplay :=
    foldl_replay (fun g => g.attributes.map Attribute.bare) bare_attributes_replay ops
  rw [ofOperations, hreplay, (records_foldl records_declareMorph ops _).2,
    (records_foldl records_declareNode ops _).2]
  rfl

theorem filter_edges_ofOperations (ops : List Operation) (id : String) :
    ((ofOperations ops).edges.filter (·.id == id)).map Edge.bare =
      ((ops.filterMap Operation.edge?).filter (·.id == id)).take 1 := by
  calc ((ofOperations ops).edges.filter (·.id == id)).map Edge.bare
      = ((ofOperations ops).edges.map Edge.bare).filter (·.id == id) := by
        rw [List.filter_map]
        rfl
    _ = ((ops.filterMap Operation.edge?).filter (·.id == id)).take 1 := by
        rw [bare_edges_ofOperations, filter_foldl_addFirst]
        rfl

theorem filter_attributes_ofOperations (ops : List Operation) (id : String) :
    ((ofOperations ops).attributes.filter (·.id == id)).map Attribute.bare =
      ((ops.filterMap Operation.attribute?).filter (·.id == id)).take 1 := by
  calc ((ofOperations ops).attributes.filter (·.id == id)).map Attribute.bare
      = ((ofOperations ops).attributes.map Attribute.bare).filter (·.id == id) := by
        rw [List.filter_map]
        rfl
    _ = ((ops.filterMap Operation.attribute?).filter (·.id == id)).take 1 := by
        rw [bare_attributes_ofOperations, filter_foldl_addFirst]
        rfl

/-- A graph keeps an operation: exactly one edge or attribute has its identifier, and
apart from its morphs it is the one that the operation makes. -/
def Keeps (g : Graph) (op : Operation) : Prop :=
  (∀ e ∈ op.edge?, (g.edges.filter (·.id == op.id)).map Edge.bare = [e]) ∧
    ∀ a ∈ op.attribute?, (g.attributes.filter (·.id == op.id)).map Attribute.bare = [a]

instance (g : Graph) (op : Operation) : Decidable (g.Keeps op) :=
  inferInstanceAs (Decidable ((∀ e ∈ op.edge?, _ = [e]) ∧ ∀ a ∈ op.attribute?, _ = [a]))

/-- What operations make is first of its identifier if, and only if, operations of one
identifier make the same. -/
theorem forall_first_iff {α : Type} {key : α → String} {made? : Operation → Option α}
    (hkey : ∀ op, ∀ v ∈ made? op, key v = op.id) (ops : List Operation) :
    (∀ op ∈ ops, ∀ v ∈ made? op,
        ((ops.filterMap made?).filter (key · == op.id)).take 1 = [v]) ↔
      ∀ a ∈ ops, ∀ b ∈ ops, a.id = b.id → ∀ v ∈ made? a, ∀ v' ∈ made? b, v = v' := by
  have hmem : ∀ {op v}, op ∈ ops → v ∈ made? op → v ∈ ops.filterMap made? :=
    fun hop hv => List.mem_filterMap.mpr ⟨_, hop, hv⟩
  constructor
  · intro h a ha b hb hid v hv v' hv'
    have heq := (h a ha v hv).symm.trans (hid ▸ h b hb v' hv')
    exact (List.cons.inj heq).1
  · intro h op hop v hv
    rw [← hkey op v hv]
    refine (take_one_filter_iff key _).mpr ?_ v (hmem hop hv)
    intro w hw w' hw' heq
    obtain ⟨a, ha, haw⟩ := List.mem_filterMap.mp hw
    obtain ⟨b, hb, hbw⟩ := List.mem_filterMap.mp hw'
    exact h a ha b hb ((hkey a w haw).symm.trans (heq.trans (hkey b w' hbw))) w haw w' hbw

/-- A graph keeps all operations of a stream exactly if those of one identifier make the
same. -/
theorem forall_keeps_iff (ops : List Operation) :
    (∀ op ∈ ops, (ofOperations ops).Keeps op) ↔
      ∀ a ∈ ops, ∀ b ∈ ops, a.id = b.id →
        (∀ e ∈ a.edge?, ∀ e' ∈ b.edge?, e = e') ∧
          ∀ v ∈ a.attribute?, ∀ v' ∈ b.attribute?, v = v' := by
  have hedges := forall_first_iff (fun _ => Operation.id_of_mem_edge?) ops
  have hattributes := forall_first_iff (fun _ => Operation.id_of_mem_attribute?) ops
  simp only [Keeps, filter_edges_ofOperations, filter_attributes_ofOperations, forall_and]
  exact and_congr hedges hattributes

end Graph

end NoteGraph
