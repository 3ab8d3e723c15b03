import NoteGraph.Proofs.Graph.Replay
import NoteGraph.Proofs.Operation.Reference

/-!
# The nodes of an assembled graph

A stream declares nodes and morphs, and the graph has exactly these: a node for each
identifier that is declared, in the order of the first declarations and numbered in it, and
under each node its basic morph and then its declared morphs, each identifier once. The
third pass only lets morphs list records and sets descriptions, so nodes and morphs are
what they were without these (`Node.bare`).
-/

namespace NoteGraph

/-! ### Nodes without their records -/

/-- A morph without its records. -/
def Morph.bare (m : Morph) : Morph := { m with relationIds := [], attributeIds := [] }

/-- A node without its description and the records of its morphs. -/
def Node.bare (n : Node) : Node :=
  { n with description := none, basic := n.basic.bare, others := n.others.map Morph.bare }

@[simp] theorem Node.id_bare (n : Node) : n.bare.id = n.id := rfl

@[simp] theorem Node.morphs_bare (n : Node) : n.bare.morphs = n.morphs.map Morph.bare := rfl

theorem Morph.bare_list (m : Morph) (kind : RecordKind) (id : String) :
    (m.list kind id).bare = m.bare := by
  cases kind <;> rfl

theorem Node.bare_modifyMorph (n : Node) (morphId : String) (kind : RecordKind) (id : String) :
    (n.modifyMorph morphId fun m => m.list kind id).bare = n.bare := by
  have hchange (m : Morph) :
      (if m.morphId == morphId then m.list kind id else m).bare = m.bare := by
    split_ifs
    · exact m.bare_list kind id
    · rfl
  simp only [modifyMorph, bare, List.map_map, hchange, Function.comp_def]

theorem Node.morphIds_bare (n : Node) :
    n.bare.morphs.map (·.morphId) = n.morphs.map (·.morphId) := by
  rw [morphs_bare, List.map_map]
  rfl

theorem Node.morph?_isSome_iff {n : Node} {morphId : String} :
    (n.morph? morphId).isSome = true ↔ morphId ∈ n.morphs.map (·.morphId) := by
  simp [morph?, List.find?_isSome]

namespace Graph

theorem bare_nodes_modifyNode (g : Graph) (id : String) {f : Node → Node}
    (hf : ∀ n, (f n).bare = n.bare) :
    (g.modifyNode id f).nodes.map Node.bare = g.nodes.map Node.bare := by
  rw [modifyNode, List.map_map]
  refine List.map_congr_left fun n _ => ?_
  simp only [Function.comp_apply]
  split_ifs
  · exact hf n
  · rfl

theorem bare_nodes_replay (g : Graph) (op : Operation) :
    (g.replay op).nodes.map Node.bare = g.nodes.map Node.bare := by
  rcases g.replay_cases op with ⟨kind, source, morphId, -, hmakes⟩ | ⟨r, -, hfield⟩ | ⟨hnodes, -⟩
  · cases hmakes with
    | reported _ _ hnodes | kept _ _ _ hnodes => rw [hnodes]
    | joined m _ _ hnodes =>
      rw [hnodes]
      exact g.bare_nodes_modifyNode source fun n => n.bare_modifyMorph m kind op.id
  · rw [hfield, updateField]
    split_ifs
    · rfl
    · rfl
    · exact g.bare_nodes_modifyNode r.nodeId fun n => rfl
  · rw [hnodes]

theorem bare_nodes_foldl_replay (ops : List Operation) :
    ∀ g : Graph, (ops.foldl replay g).nodes.map Node.bare = g.nodes.map Node.bare := by
  induction ops with
  | nil => exact fun g => rfl
  | cons op rest ih => exact fun g => (ih (g.replay op)).trans (g.bare_nodes_replay op)

theorem node?_isSome_iff {g : Graph} {id : String} :
    (g.node? id).isSome = true ↔ id ∈ g.nodes.map (·.id) := by
  simp [node?, List.find?_isSome]

end Graph

/-! ### Declarations of nodes -/

/-- The declarations of a stream that hold: the first of each identifier, in order. -/
def declarations (ops : List Operation) : List (String × NodeRecord) :=
  (ops.filterMap Operation.declaration?).foldl (addFirst Prod.fst) []

theorem nodup_declarations (ops : List Operation) : ((declarations ops).map Prod.fst).Nodup := by
  refine nodup_foldl_addFirst Prod.fst ?_ _
  exact List.nodup_nil

/-- The nodes of some declarations, numbered in their order. -/
def newNodes (declared : List (String × NodeRecord)) : List Node :=
  declared.mapIdx fun k d => Graph.newNode d.1 d.2 (k + 1)

theorem map_id_newNodes (declared : List (String × NodeRecord)) :
    (newNodes declared).map (·.id) = declared.map Prod.fst := by
  refine List.ext_getElem? fun k => ?_
  simp [newNodes, Option.map_map, Function.comp_def, Graph.newNode]

namespace Graph

theorem nodes_addNode {g : Graph} {declared : List (String × NodeRecord)}
    (h : g.nodes = newNodes declared) (id : String) (record : NodeRecord) :
    (g.addNode id record).nodes = newNodes (addFirst Prod.fst declared (id, record)) := by
  have hmem : (g.node? id).isSome = true ↔ id ∈ declared.map Prod.fst := by
    rw [node?_isSome_iff, h, map_id_newNodes]
  by_cases hid : id ∈ declared.map Prod.fst
  · rw [addNode, if_pos (hmem.mpr hid), addFirst_of_mem Prod.fst hid, h]
  · rw [addNode, if_neg (mt hmem.mp hid), addFirst_of_notMem Prod.fst hid]
    simp only [h, newNodes, List.length_mapIdx, List.mapIdx_concat]

theorem nodes_foldl_declareNode (ops : List Operation) {g : Graph}
    (declared : List (String × NodeRecord)) (h : g.nodes = newNodes declared) :
    (ops.foldl declareNode g).nodes =
      newNodes ((ops.filterMap Operation.declaration?).foldl (addFirst Prod.fst) declared) := by
  induction ops generalizing g declared with
  | nil => exact h
  | cons op rest ih =>
    rw [List.foldl_cons]
    cases hop : op.action with
    | addNode record =>
      have hdeclaration : op.declaration? = some (op.id, record) := by
        simp [Operation.declaration?, Operation.node?, hop]
      rw [List.filterMap_cons_some hdeclaration, List.foldl_cons]
      refine ih _ ?_
      rw [declareNode, hop]
      exact nodes_addNode h op.id record
    | _ =>
      have hdeclaration : op.declaration? = none := by
        simp [Operation.declaration?, Operation.node?, hop]
      rw [List.filterMap_cons_none hdeclaration]
      refine ih declared ?_
      rw [declareNode, hop]
      exact h

end Graph

/-! ### Declarations of morphs -/

/-- The morph of a declaration, before it lists records. -/
def MorphRecord.morph (record : MorphRecord) : Morph :=
  ⟨record.morphId, record.nodeId, record.name, [], []⟩

/-- A node with a declared morph, if the morph is its own and the identifier is free. -/
def Node.withMorph (n : Node) (record : MorphRecord) : Node :=
  if record.nodeId = n.id ∧ record.morphId ∉ n.morphs.map (·.morphId) then
    { n with others := n.others ++ [record.morph] }
  else n

@[simp] theorem Node.id_withMorph (n : Node) (record : MorphRecord) :
    (n.withMorph record).id = n.id := by
  unfold withMorph
  split_ifs <;> rfl

theorem Node.basic_withMorph (n : Node) (record : MorphRecord) :
    (n.withMorph record).basic = n.basic ∧ (n.withMorph record).nbh = n.nbh := by
  unfold withMorph
  split_ifs <;> exact ⟨rfl, rfl⟩

theorem Node.bare_withMorph (n : Node) (record : MorphRecord) :
    (n.withMorph record).bare = n.bare.withMorph record := by
  unfold withMorph
  rw [morphIds_bare, id_bare]
  split_ifs
  · rw [bare, List.map_append]
    rfl
  · rfl

theorem Node.morphs_withMorph (n : Node) (record : MorphRecord) :
    (n.withMorph record).morphs =
      if record.nodeId = n.id then addFirst Morph.morphId n.morphs record.morph
      else n.morphs := by
  unfold withMorph
  by_cases hid : record.nodeId = n.id
  · rw [if_pos hid]
    by_cases hmem : record.morphId ∈ n.morphs.map (·.morphId)
    · rw [addFirst_of_mem Morph.morphId hmem, if_neg fun h => h.2 hmem]
    · rw [addFirst_of_notMem Morph.morphId hmem, if_pos ⟨hid, hmem⟩]
      rfl
  · rw [if_neg hid, if_neg fun h => hid h.1]

/-- A node with all of some declared morphs that are its own. -/
def Node.withMorphs (n : Node) (records : List MorphRecord) : Node :=
  records.foldl Node.withMorph n

theorem Node.withMorphs_cons (n : Node) (record : MorphRecord) (rest : List MorphRecord) :
    n.withMorphs (record :: rest) = (n.withMorph record).withMorphs rest := rfl

@[simp] theorem Node.id_withMorphs (n : Node) (records : List MorphRecord) :
    (n.withMorphs records).id = n.id := by
  induction records generalizing n with
  | nil => rfl
  | cons record rest ih => rw [withMorphs_cons, ih, id_withMorph]

theorem Node.basic_withMorphs (n : Node) (records : List MorphRecord) :
    (n.withMorphs records).basic = n.basic ∧ (n.withMorphs records).nbh = n.nbh := by
  induction records generalizing n with
  | nil => exact ⟨rfl, rfl⟩
  | cons record rest ih =>
    obtain ⟨hbasic, hnbh⟩ := n.basic_withMorph record
    rw [withMorphs_cons, (ih _).1, (ih _).2, hbasic, hnbh]
    exact ⟨rfl, rfl⟩

theorem Node.bare_withMorphs (n : Node) (records : List MorphRecord) :
    (n.withMorphs records).bare = n.bare.withMorphs records := by
  induction records generalizing n with
  | nil => rfl
  | cons record rest ih => rw [withMorphs_cons, withMorphs_cons, ih, bare_withMorph]

/-- Of the declared morphs of a node the first of each identifier are there. -/
theorem Node.morphs_withMorphs (n : Node) (records : List MorphRecord) :
    (n.withMorphs records).morphs =
      ((records.filter (·.nodeId = n.id)).map MorphRecord.morph).foldl
        (addFirst Morph.morphId) n.morphs := by
  induction records generalizing n with
  | nil => rfl
  | cons record rest ih =>
    rw [withMorphs_cons, ih, id_withMorph, morphs_withMorph]
    by_cases hid : record.nodeId = n.id
    · rw [if_pos hid, List.filter_cons_of_pos (by simpa using hid), List.map_cons,
        List.foldl_cons]
    · rw [if_neg hid, List.filter_cons_of_neg (by simpa using hid)]

namespace Graph

theorem nodes_addMorph {g : Graph} (h : (g.nodes.map (·.id)).Nodup) (record : MorphRecord) :
    (g.addMorph record).nodes = g.nodes.map (·.withMorph record) := by
  unfold addMorph
  cases hnode : g.node? record.nodeId with
  | none =>
    have hother : ∀ n ∈ g.nodes, n = n.withMorph record := by
      intro n hn
      have hne := List.find?_eq_none.mp hnode n hn
      exact (if_neg fun hand => hne (by simp [hand.1])).symm
    exact (List.map_id g.nodes).symm.trans (List.map_congr_left hother)
  | some node =>
    have hmem : node ∈ g.nodes := List.mem_of_find?_eq_some hnode
    have hid : node.id = record.nodeId := by simpa using List.find?_some hnode
    have honly : ∀ n ∈ g.nodes, record.nodeId = n.id → n = node := fun n hn heq =>
      List.inj_on_of_nodup_map h hn hmem (heq.symm.trans hid.symm)
    simp only
    split_ifs with htaken
    · -- the identifier is taken in the only node that the morph could belong to
      have hkept : ∀ n ∈ g.nodes, n = n.withMorph record := by
        intro n hn
        refine (if_neg fun hand => hand.2 ?_).symm
        rw [honly n hn hand.1]
        exact Node.morph?_isSome_iff.mp htaken
      exact (List.map_id g.nodes).symm.trans (List.map_congr_left hkept)
    · refine List.map_congr_left fun n hn => ?_
      unfold Node.withMorph
      by_cases heq : record.nodeId = n.id
      · have hfree : record.morphId ∉ n.morphs.map (·.morphId) := by
          rw [honly n hn heq]
          exact mt Node.morph?_isSome_iff.mpr htaken
        rw [if_pos (by simpa using heq.symm), if_pos ⟨heq, hfree⟩]
        rfl
      · rw [if_neg (by simpa using Ne.symm heq), if_neg fun hand => heq hand.1]

theorem nodes_foldl_declareMorph (ops : List Operation) {g : Graph}
    (h : (g.nodes.map (·.id)).Nodup) :
    (ops.foldl declareMorph g).nodes =
      g.nodes.map (·.withMorphs (ops.filterMap Operation.morph?)) := by
  induction ops generalizing g with
  | nil => exact (List.map_id g.nodes).symm
  | cons op rest ih =>
    rw [List.foldl_cons]
    cases hop : op.action with
    | addMorph record =>
      have hmorph : op.morph? = some record := by rw [Operation.morph?, hop]
      have hnodes : (g.declareMorph op).nodes = g.nodes.map (·.withMorph record) := by
        rw [declareMorph, hop]
        exact nodes_addMorph h record
      have hids : ((g.declareMorph op).nodes.map (·.id)).Nodup := by
        rw [hnodes, List.map_map]
        simpa [Function.comp_def] using h
      rw [ih hids, hnodes, List.map_map, List.filterMap_cons_some hmorph]
      rfl
    | _ =>
      have hmorph : op.morph? = none := by rw [Operation.morph?, hop]
      have hsame : g.declareMorph op = g := by rw [declareMorph, hop]
      rw [hsame, ih h, List.filterMap_cons_none hmorph]

theorem map_id_addMorph (g : Graph) (record : MorphRecord) :
    (g.addMorph record).nodes.map (·.id) = g.nodes.map (·.id) := by
  unfold addMorph
  cases g.node? record.nodeId with
  | none => rfl
  | some node =>
    simp only
    split_ifs
    · rfl
    · rw [modifyNode, List.map_map]
      refine List.map_congr_left fun n _ => ?_
      simp only [Function.comp_apply]
      split_ifs <;> rfl

/-! ### The nodes of a stream -/

/-- The node of the `k`-th declaration of a stream, before its morphs list records. -/
def declaredNode (ops : List Operation) (k : ℕ) (d : String × NodeRecord) : Node :=
  (newNode d.1 d.2 (k + 1)).withMorphs (ops.filterMap Operation.morph?)

theorem bare_declaredNode (ops : List Operation) (k : ℕ) (d : String × NodeRecord) :
    (declaredNode ops k d).bare = declaredNode ops k d := by
  rw [declaredNode, Node.bare_withMorphs]
  rfl

/-- The graph of a stream before its records are made. -/
def declared (ops : List Operation) : Graph := ops.foldl declareMorph (ops.foldl declareNode {})

theorem nodes_declared (ops : List Operation) :
    (declared ops).nodes = (declarations ops).mapIdx (declaredNode ops) := by
  have hnodes : (ops.foldl declareNode {}).nodes = newNodes (declarations ops) :=
    nodes_foldl_declareNode ops [] rfl
  have hids : ((ops.foldl declareNode {}).nodes.map (·.id)).Nodup := by
    rw [hnodes, map_id_newNodes]
    exact nodup_declarations ops
  rw [declared, nodes_foldl_declareMorph ops hids, hnodes, newNodes]
  refine List.ext_getElem? fun k => ?_
  simp only [List.getElem?_map, List.getElem?_mapIdx, Option.map_map]
  rfl

theorem links_declared (ops : List Operation) (kind : RecordKind) :
    (declared ops).links kind = [] := by
  obtain ⟨hedges, hattributes⟩ :=
    records_foldl records_declareMorph ops (ops.foldl declareNode {})
  obtain ⟨hedges', hattributes'⟩ := records_foldl records_declareNode ops {}
  cases kind with
  | relation => rw [links, declared, hedges, hedges', List.map_nil]
  | «attribute» => rw [links, declared, hattributes, hattributes', List.map_nil]

/-- **Nodes are as declared**: apart from descriptions and records, the nodes of a graph are
those of the declarations of its stream, in order. -/
theorem bare_nodes_ofOperations (ops : List Operation) :
    (ofOperations ops).nodes.map Node.bare = (declarations ops).mapIdx (declaredNode ops) := by
  rw [ofOperations, bare_nodes_foldl_replay, ← declared, nodes_declared]
  refine List.ext_getElem? fun k => ?_
  simp [Option.map_map, Function.comp_def, bare_declaredNode]

section Stream

variable {ops : List Operation} {n : Node} {k : ℕ} {d : String × NodeRecord}

theorem declaration_of_getElem? (hn : (ofOperations ops).nodes[k]? = some n) :
    ∃ d, (declarations ops)[k]? = some d ∧ n.bare = declaredNode ops k d := by
  have hbare : ((ofOperations ops).nodes.map Node.bare)[k]? = some n.bare := by
    rw [List.getElem?_map, hn]
    rfl
  rw [bare_nodes_ofOperations, List.getElem?_mapIdx, Option.map_eq_some_iff] at hbare
  obtain ⟨d, hd, heq⟩ := hbare
  exact ⟨d, hd, heq.symm⟩

theorem exists_declaration (hn : n ∈ (ofOperations ops).nodes) :
    ∃ k d, (declarations ops)[k]? = some d ∧ n.bare = declaredNode ops k d := by
  obtain ⟨k, hk⟩ := List.mem_iff_getElem?.mp hn
  exact ⟨k, declaration_of_getElem? hk⟩

theorem map_id_nodes (ops : List Operation) :
    (ofOperations ops).nodes.map (·.id) = (declarations ops).map Prod.fst := by
  calc (ofOperations ops).nodes.map (·.id)
      = ((ofOperations ops).nodes.map Node.bare).map (·.id) := by rw [List.map_map]; rfl
    _ = (declarations ops).map Prod.fst := by
        rw [bare_nodes_ofOperations]
        refine List.ext_getElem? fun k => ?_
        simp [Option.map_map, Function.comp_def, declaredNode, newNode]

theorem nodup_map_id_nodes (ops : List Operation) :
    ((ofOperations ops).nodes.map (·.id)).Nodup := by
  rw [map_id_nodes]
  exact nodup_declarations ops

/-- The graph has the nodes that the stream declares. -/
theorem mem_nodes_iff {id : String} :
    id ∈ (ofOperations ops).nodes.map (·.id) ↔ id ∈ nodeIds ops := by
  rw [map_id_nodes, declarations, mem_map_foldl_addFirst, List.map_nil, nodeIds]
  simp only [List.not_mem_nil, false_or]

theorem id_of_bare (h : n.bare = declaredNode ops k d) : n.id = d.1 := by
  rw [← n.id_bare, h, declaredNode, Node.id_withMorphs]
  rfl

theorem basic_bare_of_bare (h : n.bare = declaredNode ops k d) :
    n.basic.bare = (newNode d.1 d.2 (k + 1)).basic :=
  (congrArg Node.basic h).trans (Node.basic_withMorphs _ _).1

/-- The basic morph of a node is numbered with it, and active. -/
theorem basic_of_bare (h : n.bare = declaredNode ops k d) :
    n.basic.morphId = basicMorphId d.1 (k + 1) ∧ n.basic.name = basicMorphName ∧
      n.nbh = n.basic.morphId := by
  have hbare := basic_bare_of_bare h
  have hactive : n.nbh = basicMorphId d.1 (k + 1) :=
    (congrArg Node.nbh h).trans (Node.basic_withMorphs _ _).2
  have hid : n.basic.morphId = basicMorphId d.1 (k + 1) := congrArg Morph.morphId hbare
  exact ⟨hid, congrArg Morph.name hbare, hactive.trans hid.symm⟩

variable (hn : n ∈ (ofOperations ops).nodes)
include hn

/-- The morphs of a node: its basic morph, then the first declared one of each identifier. -/
theorem bare_morphs_ofOperations : n.morphs.map Morph.bare =
    (((ops.filterMap Operation.morph?).filter (·.nodeId = n.id)).map MorphRecord.morph).foldl
      (addFirst Morph.morphId) [n.basic.bare] := by
  obtain ⟨k, d, -, hbare⟩ := exists_declaration hn
  rw [← n.morphs_bare, hbare, declaredNode, Node.morphs_withMorphs, basic_bare_of_bare hbare,
    id_of_bare hbare]
  rfl

theorem mem_morphIds_iff {morphId : String} :
    morphId ∈ n.morphs.map (·.morphId) ↔ morphId = n.basic.morphId ∨
      ∃ record ∈ ops.filterMap Operation.morph?, record.nodeId = n.id ∧
        record.morphId = morphId := by
  rw [← n.morphIds_bare, n.morphs_bare, bare_morphs_ofOperations hn, mem_map_foldl_addFirst]
  simp [Morph.bare, MorphRecord.morph, and_assoc]

theorem nodup_morphIds : (n.morphs.map (·.morphId)).Nodup := by
  rw [← n.morphIds_bare, n.morphs_bare, bare_morphs_ofOperations hn]
  refine nodup_foldl_addFirst Morph.morphId ?_ _
  exact List.nodup_singleton _

/-- The morphs of a node are its own. -/
theorem nodeId_of_mem_morphs {m : Morph} (hm : m ∈ n.morphs) : m.nodeId = n.id := by
  have hbare : m.bare ∈ n.morphs.map Morph.bare := List.mem_map_of_mem hm
  rw [bare_morphs_ofOperations hn] at hbare
  rcases mem_foldl_addFirst Morph.morphId hbare with hbasic | hdeclared
  · obtain ⟨k, d, -, hnode⟩ := exists_declaration hn
    rw [List.mem_singleton, basic_bare_of_bare hnode] at hbasic
    exact (congrArg Morph.nodeId hbasic).trans (id_of_bare hnode).symm
  · obtain ⟨record, hrecord, heq⟩ := List.mem_map.mp hdeclared
    have hown : record.nodeId = n.id := by simpa using (List.mem_filter.mp hrecord).2
    exact (congrArg Morph.nodeId heq).symm.trans hown

end Stream

end Graph

end NoteGraph
