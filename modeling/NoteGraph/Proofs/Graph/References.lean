import NoteGraph.Proofs.Graph.Nodes

/-!
# Unresolved references

A graph reports what its stream refers to in vain: morphs of unknown nodes, then records of
unknown nodes or morphs and fields that cannot be set, each in the order of the operations
(`Graph.errors_ofOperations`). It does not look at the targets of relations. So it reports
nothing exactly if all other references resolve.
-/

namespace NoteGraph

/-! ### Resolving -/

/-- The basic morphs of the nodes that a stream declares, each with its node. -/
def basicMorphKeys (ops : List Operation) : List (String × String) :=
  (declarations ops).mapIdx fun k d => (d.1, Graph.basicMorphId d.1 (k + 1))

/-- A reference to something that a stream declares: a node, a declared or basic morph of a
node, or the field of nodes that can be set. -/
def Reference.Resolves (ops : List Operation) : Reference → Prop
  | node id | target id => id ∈ nodeIds ops
  | morph nodeId id => (nodeId, id) ∈ morphKeys ops ∨ (nodeId, id) ∈ basicMorphKeys ops
  | field name => name = "description"

instance (ops : List Operation) : (ref : Reference) → Decidable (ref.Resolves ops)
  | .node id | .target id => inferInstanceAs (Decidable (id ∈ nodeIds ops))
  | .morph nodeId id => inferInstanceAs
    (Decidable ((nodeId, id) ∈ morphKeys ops ∨ (nodeId, id) ∈ basicMorphKeys ops))
  | .field name => inferInstanceAs (Decidable (name = "description"))

namespace Graph

/-- The error in a result, if it is one. -/
def errorOf? : Except GraphError String → Option GraphError
  | .error e => some e
  | .ok _ => none

/-- What the second pass reports of an operation. -/
def morphError? (g : Graph) (op : Operation) : Option GraphError :=
  op.morph?.bind fun record =>
    if (g.node? record.nodeId).isSome then none
    else some (.morphOfUnknownNode record.name record.nodeId)

/-- What the setting of a field reports. -/
def fieldError? (g : Graph) (record : FieldRecord) : Option GraphError :=
  if (g.node? record.nodeId).isNone then some (.fieldOfUnknownNode record.field record.nodeId)
  else if record.field != "description" then
    some (.unsupportedField record.field record.nodeId)
  else none

/-- What the third pass reports of an operation. -/
def replayError? (g : Graph) (op : Operation) : Option GraphError :=
  match op.action with
  | .updateField record => g.fieldError? record
  | _ => op.record?.bind fun (kind, source, morphId) =>
    errorOf? (g.targetMorph kind op.id source morphId)

theorem errors_updateField (g : Graph) (record : FieldRecord) :
    (g.updateField record).errors = g.errors ++ (g.fieldError? record).toList := by
  unfold updateField fieldError?
  split_ifs
  · rfl
  · rfl
  · exact (List.append_nil _).symm

theorem replayError?_of_record {g : Graph} {op : Operation} {kind : RecordKind} {source : String}
    {morphId : Option String} (hrecord : op.record? = some (kind, source, morphId)) :
    g.replayError? op = errorOf? (g.targetMorph kind op.id source morphId) := by
  unfold replayError?
  split
  · rename_i hop
    rw [Operation.record?, hop] at hrecord
    cases hrecord
  · rw [hrecord]
    rfl

theorem errors_replay (g : Graph) (op : Operation) :
    (g.replay op).errors = g.errors ++ (g.replayError? op).toList := by
  rcases g.replay_cases op with ⟨kind, source, morphId, hrecord, hmakes⟩ | ⟨r, hop, hfield⟩ |
    ⟨-, -, herrors, hrecord, hother⟩
  · rw [replayError?_of_record hrecord]
    cases hmakes with
    | reported e htarget _ herrors => rw [herrors, htarget]; rfl
    | kept m htarget _ _ herrors | joined m htarget _ _ herrors =>
      rw [herrors, htarget]
      exact (List.append_nil _).symm
  · rw [hfield, errors_updateField, replayError?, hop]
  · have herror : g.replayError? op = none := by
      unfold replayError?
      split
      · rename_i record hop
        exact absurd hop (hother record)
      · rw [hrecord]
        rfl
    rw [herrors, herror]
    exact (List.append_nil _).symm

theorem errors_declareMorph (g : Graph) (op : Operation) :
    (g.declareMorph op).errors = g.errors ++ (g.morphError? op).toList := by
  unfold declareMorph morphError? Operation.morph?
  cases op.action with
  | addMorph record =>
    cases hnode : g.node? record.nodeId with
    | none => simp [addMorph, hnode, report]
    | some node =>
      simp only [addMorph, hnode]
      split_ifs <;> simp [modifyNode, hnode]
  | _ => exact (List.append_nil _).symm

/-! ### Errors depend on what is declared -/

section Same

variable {g g' : Graph}

theorem isSome_node?_congr (h : g.nodes.map (·.id) = g'.nodes.map (·.id)) (id : String) :
    (g.node? id).isSome = (g'.node? id).isSome := by
  rw [Bool.eq_iff_iff, node?_isSome_iff, node?_isSome_iff, h]

theorem morphError?_congr (h : g.nodes.map (·.id) = g'.nodes.map (·.id)) :
    g.morphError? = g'.morphError? := by
  funext op
  simp only [morphError?, isSome_node?_congr h]

/-- Graphs with the same bare nodes find the same nodes. -/
theorem map_bare_node? (h : g.nodes.map Node.bare = g'.nodes.map Node.bare) (id : String) :
    (g.node? id).map Node.bare = (g'.node? id).map Node.bare := by
  have hfind (g : Graph) :
      (g.node? id).map Node.bare = (g.nodes.map Node.bare).find? (·.id == id) := by
    rw [List.find?_map]
    rfl
  rw [hfind, hfind, h]

theorem targetMorph_congr (h : g.nodes.map Node.bare = g'.nodes.map Node.bare) :
    g.targetMorph = g'.targetMorph := by
  funext kind id source morphId
  have hnode := map_bare_node? h source
  unfold targetMorph
  cases hg : g.node? source with
  | none =>
    rw [hg, Option.map_none, eq_comm, Option.map_eq_none_iff] at hnode
    rw [hnode]
  | some n =>
    rw [hg, Option.map_some, eq_comm, Option.map_eq_some_iff] at hnode
    obtain ⟨n', hg', hbare⟩ := hnode
    have hbasic : n.basic.morphId = n'.basic.morphId :=
      (congrArg (·.basic.morphId) hbare).symm
    have hids : n.morphs.map (·.morphId) = n'.morphs.map (·.morphId) := by
      rw [← n.morphIds_bare, ← n'.morphIds_bare, hbare]
    have hmorph (m : String) : (n.morph? m).isSome = (n'.morph? m).isSome := by
      rw [Bool.eq_iff_iff, Node.morph?_isSome_iff, Node.morph?_isSome_iff, hids]
    rw [hg']
    simp only [hbasic, hmorph]

theorem replayError?_congr (h : g.nodes.map Node.bare = g'.nodes.map Node.bare) :
    g.replayError? = g'.replayError? := by
  have hids : g.nodes.map (·.id) = g'.nodes.map (·.id) := by
    simpa [List.map_map, Function.comp_def] using congrArg (List.map (·.id)) h
  have hnode (id : String) : (g.node? id).isNone = (g'.node? id).isNone := by
    rw [← Option.not_isSome, ← Option.not_isSome, isSome_node?_congr hids]
  funext op
  simp only [replayError?, fieldError?, hnode, targetMorph_congr h]

end Same

/-! ### The errors of a stream -/

/-- A pass that reports an operation by what it does not change reports all operations so. -/
theorem errors_foldl {f : Graph → Operation → Graph}
    {error? : Graph → Operation → Option GraphError}
    (herrors : ∀ g op, (f g op).errors = g.errors ++ (error? g op).toList)
    (hsame : ∀ g op, error? (f g op) = error? g) (ops : List Operation) :
    ∀ g, (ops.foldl f g).errors = g.errors ++ ops.filterMap (error? g) := by
  induction ops with
  | nil => exact fun g => (List.append_nil _).symm
  | cons op rest ih =>
    intro g
    rw [List.foldl_cons, ih, herrors, hsame, List.append_assoc, List.filterMap_cons]
    cases error? g op <;> rfl

theorem errors_declareNode (g : Graph) (op : Operation) :
    (g.declareNode op).errors = g.errors ++ (none : Option GraphError).toList := by
  unfold declareNode
  cases op.action with
  | addNode record =>
    simp only [addNode]
    split_ifs <;> exact (List.append_nil _).symm
  | _ => exact (List.append_nil _).symm

theorem map_id_declareMorph (g : Graph) (op : Operation) :
    (g.declareMorph op).nodes.map (·.id) = g.nodes.map (·.id) := by
  unfold declareMorph
  cases op.action with
  | addMorph record => exact g.map_id_addMorph record
  | _ => rfl

/-- **Errors**: first the morphs of unknown nodes are reported, and then the records and
fields that refer to nothing, each in the order of the stream. -/
theorem errors_ofOperations (ops : List Operation) :
    (ofOperations ops).errors = ops.filterMap (ofOperations ops).morphError? ++
      ops.filterMap (ofOperations ops).replayError? := by
  have hnodes := errors_foldl errors_declareNode (fun _ _ => rfl) ops {}
  have hmorphs := errors_foldl errors_declareMorph
    (fun g op => morphError?_congr (g.map_id_declareMorph op)) ops (ops.foldl declareNode {})
  have hreplay := errors_foldl errors_replay
    (fun g op => replayError?_congr (g.bare_nodes_replay op)) ops (declared ops)
  have hids : (ops.foldl declareNode {}).nodes.map (·.id) =
      (ofOperations ops).nodes.map (·.id) := by
    rw [nodes_foldl_declareNode ops [] rfl, map_id_newNodes, map_id_nodes]
    rfl
  have hbare : (declared ops).nodes.map Node.bare = (ofOperations ops).nodes.map Node.bare :=
    (bare_nodes_foldl_replay ops (declared ops)).symm
  have hdeclared : (declared ops).errors = ops.filterMap (ofOperations ops).morphError? := by
    rw [declared, hmorphs, hnodes, morphError?_congr hids]
    simp
  exact hreplay.trans (by rw [hdeclared, replayError?_congr hbare])

/-! ### No errors -/

section Resolving

variable {ops : List Operation}

theorem isSome_node?_iff {id : String} :
    ((ofOperations ops).node? id).isSome = true ↔ id ∈ nodeIds ops :=
  node?_isSome_iff.trans mem_nodes_iff

theorem mem_morphKeys_iff {nodeId id : String} : (nodeId, id) ∈ morphKeys ops ↔
    ∃ record ∈ ops.filterMap Operation.morph?, record.nodeId = nodeId ∧
      record.morphId = id := by
  simp only [morphKeys, List.mem_map, Prod.mk.injEq]

theorem mem_basicMorphKeys_iff {k : ℕ} {d : String × NodeRecord}
    (hd : (declarations ops)[k]? = some d) {id : String} :
    (d.1, id) ∈ basicMorphKeys ops ↔ id = basicMorphId d.1 (k + 1) := by
  constructor
  · intro h
    obtain ⟨j, hj, heq⟩ := List.mem_mapIdx.mp h
    obtain ⟨hnode, rfl⟩ := Prod.mk.inj heq
    have hdj := List.getElem?_eq_getElem hj
    -- no node is declared twice
    have hjk : j = k := by
      have hlength : j < ((declarations ops).map Prod.fst).length := by simpa using hj
      refine (List.getElem?_inj hlength (nodup_declarations ops)).mp ?_
      rw [List.getElem?_map, List.getElem?_map, hdj, hd, Option.map_some, Option.map_some, hnode]
    subst hjk
    rw [Option.some.inj (hdj.symm.trans hd)]
  · rintro rfl
    refine List.mem_of_getElem? (i := k) ?_
    rw [basicMorphKeys, List.getElem?_mapIdx, hd]
    rfl

/-- The morphs of a node in the graph are those that a reference to one may name. -/
theorem mem_morphIds_iff_resolves {n : Node} (hn : n ∈ (ofOperations ops).nodes) {id : String} :
    id ∈ n.morphs.map (·.morphId) ↔ (Reference.morph n.id id).Resolves ops := by
  obtain ⟨k, d, hd, hbare⟩ := exists_declaration hn
  rw [mem_morphIds_iff hn, (basic_of_bare hbare).1, id_of_bare hbare, Reference.Resolves,
    mem_morphKeys_iff, mem_basicMorphKeys_iff hd, or_comm]

theorem errorOf?_targetMorph_eq_none_iff {kind : RecordKind} {id source : String}
    {morphId : Option String} :
    errorOf? ((ofOperations ops).targetMorph kind id source morphId) = none ↔
      ∀ ref ∈ recordReferences source morphId, ref.Resolves ops := by
  have hdeclared := @isSome_node?_iff ops source
  simp only [recordReferences, List.forall_mem_cons]
  unfold targetMorph
  cases hnode : (ofOperations ops).node? source with
  | none =>
    rw [hnode, Option.isSome_none] at hdeclared
    simp [errorOf?, Reference.Resolves, ← hdeclared]
  | some n =>
    rw [hnode, Option.isSome_some] at hdeclared
    have hsource : (Reference.node source).Resolves ops := hdeclared.mp rfl
    cases morphId with
    | none => simp [errorOf?, hsource]
    | some m =>
      have hid : n.id = source := by simpa using List.find?_some hnode
      have hmorph := @mem_morphIds_iff_resolves ops n (List.mem_of_find?_eq_some hnode) m
      rw [hid, ← Node.morph?_isSome_iff] at hmorph
      simp only [hsource, true_and, Option.toList_some, List.map_cons, List.map_nil,
        List.forall_mem_singleton, ← hmorph]
      split_ifs with hsome <;> simp [errorOf?, hsome]

theorem ne_target_of_mem {source : String} {morphId : Option String} {ref : Reference}
    (h : ref ∈ recordReferences source morphId) (id : String) : ref ≠ .target id := by
  rcases List.mem_cons.mp h with rfl | h
  · exact Reference.noConfusion
  · obtain ⟨m, -, rfl⟩ := List.mem_map.mp h
    exact Reference.noConfusion

/-- An operation is reported exactly if one of its references does not resolve, the target of
a relation left aside. -/
theorem errors?_eq_none_iff (op : Operation) :
    ((ofOperations ops).morphError? op = none ∧ (ofOperations ops).replayError? op = none) ↔
      ∀ ref ∈ op.references, (∃ id, ref = .target id) ∨ ref.Resolves ops := by
  have hnode (id : String) := @isSome_node?_iff ops id
  have hrecord (source : String) (morphId : Option String) :
      (∀ ref ∈ recordReferences source morphId, (∃ id, ref = .target id) ∨ ref.Resolves ops) ↔
        ∀ ref ∈ recordReferences source morphId, ref.Resolves ops := by
    refine forall₂_congr fun ref href => ⟨fun h => h.resolve_left ?_, Or.inr⟩
    rintro ⟨id, heq⟩
    exact ne_target_of_mem href id heq
  unfold morphError? replayError? Operation.morph? Operation.record? Operation.references
  cases op.action with
  | addMorph record => simp [Reference.Resolves, ← hnode, Option.isSome_iff_ne_none]
  | updateField record =>
    cases hfound : (ofOperations ops).node? record.nodeId with
    | none => simp [fieldError?, Reference.Resolves, ← hnode, hfound]
    | some n => simp [fieldError?, Reference.Resolves, ← hnode, hfound]
  | addRelation record =>
    simp only [Option.bind_none, Option.bind_some, true_and, errorOf?_targetMorph_eq_none_iff,
      List.forall_mem_cons, hrecord]
    simp
  | addAttribute record | applyFunction record =>
    simp only [Option.bind_none, Option.bind_some, true_and, errorOf?_targetMorph_eq_none_iff,
      hrecord]
  | addNode | setDescription | setCurrency => simp

theorem errors_eq_nil_iff_forall (ops : List Operation) : (ofOperations ops).errors = [] ↔
    ∀ op ∈ ops, (ofOperations ops).morphError? op = none ∧
      (ofOperations ops).replayError? op = none := by
  rw [errors_ofOperations, List.append_eq_nil_iff, List.filterMap_eq_nil_iff,
    List.filterMap_eq_nil_iff]
  exact ⟨fun h op hop => ⟨h.1 op hop, h.2 op hop⟩,
    fun h => ⟨fun op hop => (h op hop).1, fun op hop => (h op hop).2⟩⟩

end Resolving

/-- **Errors report what does not resolve**: the graph of a stream has no errors if, and only
if, every reference of its operations resolves, apart from the targets of relations, which
are not looked at. -/
theorem errors_eq_nil_iff (ops : List Operation) : (ofOperations ops).errors = [] ↔
    ∀ op ∈ ops, ∀ ref ∈ op.references, (∃ id, ref = .target id) ∨ ref.Resolves ops := by
  rw [errors_eq_nil_iff_forall]
  exact forall₂_congr fun op _ => errors?_eq_none_iff op

/-- A relation to a node that is not declared is not reported. -/
theorem unreported_target :
    let ops : List Operation := [
      { id := "x", action := .addNode { baseName := "X", displayName := "X", role := "class" } },
      { id := "r", action := .addRelation { source := "x", target := "ghost", name := "is_a" } }]
    ¬((ofOperations ops).errors = [] ↔
      ∀ op ∈ ops, ∀ ref ∈ op.references, ref.Resolves ops) := by
  decide

end Graph

end NoteGraph
