import NoteGraph.Proofs.Graph.Books
import NoteGraph.Proofs.Graph.References

/-!
# Streams that are replayed again

A stream that is followed by itself gives the graph that it gives alone, with its errors said
again. What an operation makes is there when it comes again, with the morph that it is made
under (`Graph.IsDone`), and stays there whatever else is replayed; so all that the second time
does is to set descriptions and the currency anew, and these end with the values that they have,
since of the values set to one thing the last stays.
-/

namespace NoteGraph

/-! ### Values that are replaced -/

namespace Operation

/-- The description that an operation sets for a node. -/
def describes? (id : String) (op : Operation) : Option String :=
  match op.action with
  | .updateField r => if r.nodeId = id ∧ r.field = "description" then some r.value else none
  | _ => none

/-- The description that an operation sets for the graph. -/
def description? (op : Operation) : Option String :=
  match op.action with
  | .setDescription text => some text
  | _ => none

/-- The currency that an operation sets. -/
def currency? (op : Operation) : Option String :=
  match op.action with
  | .setCurrency code => some code
  | _ => none

end Operation

/-- The last of the values that the operations of a stream set. -/
def lastSet (value? : Operation → Option String) (ops : List Operation) : Option String :=
  (ops.filterMap value?).getLast?

theorem lastSet_cons (value? : Operation → Option String) (op : Operation)
    (rest : List Operation) :
    lastSet value? (op :: rest) = (lastSet value? rest).or (lastSet value? [op]) := by
  have hcons : (op :: rest).filterMap value? = [op].filterMap value? ++ rest.filterMap value? := by
    rw [← List.filterMap_append, List.singleton_append]
  rw [lastSet, hcons, List.getLast?_append]
  rfl

namespace Graph

/-- A graph whose descriptions and currency are those that a stream sets last. -/
def setLast (g : Graph) (ops : List Operation) : Graph :=
  { g with
    nodes := g.nodes.map fun n =>
      { n with description := (lastSet (·.describes? n.id) ops).or n.description }
    description := (lastSet Operation.description? ops).or g.description
    currency := (lastSet Operation.currency? ops).or g.currency }

theorem setLast_of_none {g : Graph} {ops : List Operation}
    (hnodes : ∀ id, lastSet (Operation.describes? id) ops = none)
    (hdescription : lastSet Operation.description? ops = none)
    (hcurrency : lastSet Operation.currency? ops = none) : g.setLast ops = g := by
  simp only [setLast, hnodes, hdescription, hcurrency, Option.none_or, List.map_id']

theorem setLast_nil (g : Graph) : g.setLast [] = g :=
  setLast_of_none (fun _ => rfl) rfl rfl

theorem setLast_cons (g : Graph) (op : Operation) (rest : List Operation) :
    g.setLast (op :: rest) = (g.setLast [op]).setLast rest := by
  have hor (value? : Operation → Option String) (old : Option String) :
      (lastSet value? (op :: rest)).or old =
        (lastSet value? rest).or ((lastSet value? [op]).or old) := by
    rw [lastSet_cons, Option.or_assoc]
  simp only [setLast, List.map_map, Function.comp_def, hor]

theorem setLast_setLast (g : Graph) (ops : List Operation) :
    (g.setLast ops).setLast ops = g.setLast ops := by
  have hor (value? : Operation → Option String) (old : Option String) :
      (lastSet value? ops).or ((lastSet value? ops).or old) = (lastSet value? ops).or old := by
    rw [← Option.or_assoc, Option.or_self]
  simp only [setLast, List.map_map, Function.comp_def, hor]

/-- What a graph says in descriptions and its currency. -/
def texts (g : Graph) : List (String × Option String) × Option String × Option String :=
  (g.nodes.map fun n => (n.id, n.description), g.description, g.currency)

theorem texts_setLast_congr {g g' : Graph} (h : g.texts = g'.texts) (ops : List Operation) :
    (g.setLast ops).texts = (g'.setLast ops).texts := by
  have hset (g : Graph) : (g.setLast ops).texts =
      (g.texts.1.map fun t => (t.1, (lastSet (·.describes? t.1) ops).or t.2),
        (lastSet Operation.description? ops).or g.texts.2.1,
        (lastSet Operation.currency? ops).or g.texts.2.2) := by
    simp only [texts, setLast, List.map_map, Function.comp_def]
  rw [hset, hset, h]

/-- Setting values changes nothing else, so nothing at all if they are the same. -/
theorem setLast_eq_self {g : Graph} {ops : List Operation} (h : (g.setLast ops).texts = g.texts) :
    g.setLast ops = g := by
  obtain ⟨hnodes, hrest⟩ := Prod.mk.inj h
  obtain ⟨hdescription, hcurrency⟩ := Prod.mk.inj hrest
  have hsame : (g.setLast ops).nodes = g.nodes := by
    rw [setLast, List.map_map] at hnodes
    refine (List.map_congr_left fun n hn => ?_).trans (List.map_id g.nodes)
    have htext := List.map_inj_left.mp hnodes n hn
    have hsaid := (Prod.mk.inj htext).2
    simp only at hsaid
    rw [hsaid]
    rfl
  calc g.setLast ops
      = { g with
          nodes := (g.setLast ops).nodes
          description := (g.setLast ops).description
          currency := (g.setLast ops).currency } := rfl
    _ = g := by rw [hsame, hdescription, hcurrency]

/-- Fields that cannot be set are not, and those of unknown nodes are fields of no node. -/
theorem nodes_updateField (g : Graph) (record : FieldRecord) :
    (g.updateField record).nodes = g.nodes.map fun n =>
      if record.nodeId = n.id ∧ record.field = "description" then
        { n with description := some record.value }
      else n := by
  have hkept (h : ∀ n ∈ g.nodes, ¬(record.nodeId = n.id ∧ record.field = "description")) :
      g.nodes = g.nodes.map fun n =>
        if record.nodeId = n.id ∧ record.field = "description" then
          { n with description := some record.value }
        else n :=
    (List.map_id g.nodes).symm.trans (List.map_congr_left fun n hn => (if_neg (h n hn)).symm)
  unfold updateField
  split_ifs with hnode hfield
  · refine hkept fun n hn hand => ?_
    rw [← Option.not_isSome, Bool.not_eq_true', ← Bool.not_eq_true, node?_isSome_iff] at hnode
    exact hnode (List.mem_map.mpr ⟨n, hn, hand.1.symm⟩)
  · exact hkept fun n _ hand => by simp [hand.2] at hfield
  · refine List.map_congr_left fun n _ => ?_
    have hfield : record.field = "description" := by simpa using hfield
    simp only [hfield, and_true, beq_iff_eq, @eq_comm _ n.id]

theorem updateField_eq (g : Graph) (record : FieldRecord) :
    g.updateField record =
      { g with
        nodes := (g.updateField record).nodes
        errors := (g.updateField record).errors } := by
  unfold updateField
  split_ifs <;> rfl

/-- The setting of a field leaves the graph that it sets last, but for its errors. -/
theorem updateField_eq_setLast (g : Graph) {op : Operation} {record : FieldRecord}
    (hop : op.action = .updateField record) :
    g.updateField record =
      { g.setLast [op] with errors := (g.updateField record).errors } := by
  have hset (n : Node) : (if record.nodeId = n.id ∧ record.field = "description" then
      { n with description := some record.value } else n) =
        { n with description := (lastSet (·.describes? n.id) [op]).or n.description } := by
    simp only [lastSet, Operation.describes?, hop, List.filterMap_cons, List.filterMap_nil]
    split_ifs <;> rfl
  rw [updateField_eq, nodes_updateField]
  simp only [hset, setLast, lastSet, Operation.description?, Operation.currency?, hop,
    List.filterMap_cons, List.filterMap_nil, List.getLast?_nil, Option.none_or]

/-- Operations that set nothing. -/
theorem setLast_of_record? (g : Graph) {op : Operation} {kind : RecordKind} {source : String}
    {morphId : Option String} (hop : op.record? = some (kind, source, morphId)) :
    g.setLast [op] = g := by
  unfold Operation.record? at hop
  cases haction : op.action with
  | addRelation | addAttribute | applyFunction =>
    refine setLast_of_none (fun id => ?_) ?_ ?_
    all_goals
      simp only [lastSet, Operation.describes?, Operation.description?, Operation.currency?,
        haction, List.filterMap_cons, List.filterMap_nil, List.getLast?_nil]
  | _ =>
    rw [haction] at hop
    cases hop

theorem texts_listUnder (g : Graph) (kind : RecordKind) (id source morphId : String) :
    (g.listUnder kind id source morphId).texts = g.texts := by
  have hnode (n : Node) : (fun n : Node => (n.id, n.description))
      (if n.id == source then n.modifyMorph morphId fun m => m.list kind id else n) =
        (n.id, n.description) := by
    simp only
    split_ifs <;> rfl
  simp only [texts, listUnder, modifyNode, List.map_map, Function.comp_def, hnode]

theorem texts_addRelation (g : Graph) (id : String) (record : RelationRecord) :
    (g.addRelation id record).texts = g.texts := by
  simp only [addRelation_eq, makeEdge_eq]
  cases g.targetMorph .relation id record.source record.morphId with
  | error e => rfl
  | ok m =>
    simp only
    split_ifs
    · rfl
    · exact texts_listUnder { g with edges := _ } .relation id record.source m

theorem texts_addAttribute (g : Graph) (made : Attribute) (morphId : Option String) :
    (g.addAttribute made morphId).texts = g.texts := by
  simp only [addAttribute_eq, makeAttribute_eq]
  cases g.targetMorph .attribute made.id made.sourceId morphId with
  | error e => rfl
  | ok m =>
    simp only
    split_ifs
    · rfl
    · exact texts_listUnder { g with attributes := _ } .attribute made.id made.sourceId m

/-- A replayed operation sets what it sets last, and keeps all else that is said. -/
theorem texts_replay (g : Graph) (op : Operation) :
    (g.replay op).texts = (g.setLast [op]).texts := by
  unfold replay
  cases haction : op.action with
  | addRelation record =>
    rw [texts_addRelation, g.setLast_of_record? (by rw [Operation.record?, haction])]
  | addAttribute record | applyFunction record =>
    rw [texts_addAttribute, g.setLast_of_record? (by rw [Operation.record?, haction])]
  | updateField record =>
    simp only
    rw [g.updateField_eq_setLast haction]
    rfl
  | addNode | addMorph | setDescription | setCurrency =>
    simp [texts, setLast, lastSet, Operation.describes?, Operation.description?,
      Operation.currency?, haction]

theorem texts_foldl_replay (ops : List Operation) :
    ∀ g : Graph, (ops.foldl replay g).texts = (g.setLast ops).texts := by
  induction ops with
  | nil => exact fun g => by rw [setLast_nil, List.foldl_nil]
  | cons op rest ih =>
    intro g
    rw [List.foldl_cons, ih, texts_setLast_congr (g.texts_replay op), ← setLast_cons]

/-- **The last stays**: after a stream, descriptions and the currency are those that it sets
last, so setting these changes nothing. -/
theorem setLast_foldl_replay (ops : List Operation) (g : Graph) :
    (ops.foldl replay g).setLast ops = ops.foldl replay g := by
  refine setLast_eq_self ?_
  calc ((ops.foldl replay g).setLast ops).texts
      = ((g.setLast ops).setLast ops).texts := texts_setLast_congr (texts_foldl_replay ops g) ops
    _ = (ops.foldl replay g).texts := by rw [setLast_setLast, texts_foldl_replay]

/-! ### Records that are there -/

/-- What an operation makes is there, with the morph that it is made under. -/
def IsDone (g : Graph) (op : Operation) : Prop :=
  ∀ kind source morphId, op.record? = some (kind, source, morphId) →
    op.id ∈ (g.links kind).map Prod.fst ∧
      ∀ m, g.targetMorph kind op.id source morphId = .ok m → (g.links kind).Has op.id m

/-- A replayed operation is done. -/
theorem isDone_replay (g : Graph) (op : Operation) : (g.replay op).IsDone op := by
  intro kind source morphId hop
  rw [targetMorph_congr (g.bare_nodes_replay op)]
  rcases g.replay_cases op with ⟨kind', source', morphId', hrecord, hmakes⟩ | ⟨r, haction, -⟩ |
    ⟨-, -, -, hrecord, -⟩
  · rw [hop] at hrecord
    cases hrecord
    have hmade := Links.mem_map_make (g.links kind) op.id
    cases hmakes with
    | reported e htarget _ _ hlinks =>
      rw [hlinks, Function.update_self, htarget]
      exact ⟨hmade, fun _ h => nomatch h⟩
    | kept m htarget hhas _ _ hlinks =>
      rw [hlinks, Function.update_self, htarget]
      exact ⟨hmade, fun _ h => Except.ok.inj h ▸ hhas⟩
    | joined m htarget _ _ _ hlinks =>
      rw [hlinks, Function.update_self, htarget, Links.map_fst_join]
      exact ⟨hmade, fun _ h => Except.ok.inj h ▸ Links.has_join hmade m⟩
  · rw [Operation.record?, haction] at hop
    cases hop
  · rw [hrecord] at hop
    cases hop

theorem links_replay_cases (g : Graph) (op : Operation) (kind : RecordKind) :
    (g.replay op).links kind = g.links kind ∨
      (g.replay op).links kind = (g.links kind).make op.id ∨
      ∃ m, (g.replay op).links kind = ((g.links kind).make op.id).join op.id m := by
  rcases g.replay_cases op with ⟨kind', source, morphId, -, hmakes⟩ | ⟨r, -, hfield⟩ |
    ⟨-, hlinks, -⟩
  · by_cases hkind : kind = kind'
    · subst hkind
      cases hmakes with
      | reported _ _ _ _ hlinks | kept _ _ _ _ _ hlinks =>
        exact .inr (.inl (by rw [hlinks, Function.update_self]))
      | joined m _ _ _ _ hlinks =>
        exact .inr (.inr ⟨m, by rw [hlinks, Function.update_self]⟩)
    · cases hmakes with
      | reported _ _ _ _ hlinks | kept _ _ _ _ _ hlinks | joined _ _ _ _ _ hlinks =>
        exact .inl (by rw [hlinks, Function.update_of_ne hkind])
  · exact .inl (by rw [hfield, links_updateField])
  · exact .inl (by rw [hlinks])

theorem map_fst_links_subset_replay (g : Graph) (op : Operation) (kind : RecordKind) :
    (g.links kind).map Prod.fst ⊆ ((g.replay op).links kind).map Prod.fst := by
  have hmade := List.map_subset Prod.fst (subset_addFirst Prod.fst (g.links kind) (op.id, []))
  rcases g.links_replay_cases op kind with hlinks | hlinks | ⟨m, hlinks⟩
  · rw [hlinks]
    exact List.Subset.refl _
  · rw [hlinks]
    exact hmade
  · rw [hlinks, Links.map_fst_join]
    exact hmade

/-- What is done stays done. -/
theorem IsDone.replay {g : Graph} {op : Operation} (h : g.IsDone op) (other : Operation) :
    (g.replay other).IsDone op := by
  intro kind source morphId hop
  obtain ⟨hmade, hjoined⟩ := h kind source morphId hop
  rw [targetMorph_congr (g.bare_nodes_replay other)]
  exact ⟨g.map_fst_links_subset_replay other kind hmade,
    fun m hm => has_replay (hjoined m hm) other⟩

theorem isDone_foldl_of_isDone {op : Operation} (ops : List Operation) :
    ∀ {g : Graph}, g.IsDone op → (ops.foldl Graph.replay g).IsDone op := by
  induction ops with
  | nil => exact fun h => h
  | cons other rest ih => exact fun h => ih (h.replay other)

/-- All operations of a stream are done after it. -/
theorem isDone_foldl_replay (ops : List Operation) :
    ∀ g : Graph, ∀ op ∈ ops, (ops.foldl Graph.replay g).IsDone op := by
  induction ops with
  | nil => exact fun _ _ h => nomatch h
  | cons first rest ih =>
    intro g op hop
    rcases List.mem_cons.mp hop with rfl | hop
    · exact isDone_foldl_of_isDone rest (g.isDone_replay op)
    · exact ih (g.replay first) op hop

theorem addRelation_of_has {g : Graph} {id : String} {record : RelationRecord}
    (hmade : id ∈ g.edges.map (·.id))
    (hjoined : ∀ m, g.targetMorph .relation id record.source record.morphId = .ok m →
      (g.links .relation).Has id m) :
    ∃ errors, g.addRelation id record = { g with errors } := by
  have hmake (g : Graph) (hmade : id ∈ g.edges.map (·.id)) : g.makeEdge (edgeOf id record) = g := by
    rw [makeEdge_eq, addFirst_of_mem Edge.id hmade]
  rw [addRelation_eq]
  cases htarget : g.targetMorph .relation id record.source record.morphId with
  | error e => exact ⟨_, hmake (g.report e) hmade⟩
  | ok m =>
    simp only [hmake g hmade]
    rw [if_pos ((Links.has_map_iff fun e : Edge => (e.id, e.morphIds)).mpr (hjoined m htarget))]
    exact ⟨g.errors, rfl⟩

theorem addAttribute_of_has {g : Graph} {made : Attribute} {morphId : Option String}
    (hmade : made.id ∈ g.attributes.map (·.id))
    (hjoined : ∀ m, g.targetMorph .attribute made.id made.sourceId morphId = .ok m →
      (g.links .attribute).Has made.id m) :
    ∃ errors, g.addAttribute made morphId = { g with errors } := by
  have hmake (g : Graph) (hmade : made.id ∈ g.attributes.map (·.id)) :
      g.makeAttribute made = g := by
    rw [makeAttribute_eq, addFirst_of_mem Attribute.id hmade]
  rw [addAttribute_eq]
  cases htarget : g.targetMorph .attribute made.id made.sourceId morphId with
  | error e => exact ⟨_, hmake (g.report e) hmade⟩
  | ok m =>
    simp only [hmake g hmade]
    rw [if_pos ((Links.has_map_iff fun a : Attribute => (a.id, a.morphIds)).mpr
      (hjoined m htarget))]
    exact ⟨g.errors, rfl⟩

/-- An operation that is done sets values again and says its error again, and no more. -/
theorem IsDone.replay_eq {g : Graph} {op : Operation} (h : g.IsDone op) :
    ∃ errors, g.replay op = { g.setLast [op] with errors } := by
  unfold Graph.replay
  cases haction : op.action with
  | addRelation record =>
    have hrecord : op.record? = some (.relation, record.source, record.morphId) := by
      rw [Operation.record?, haction]
    obtain ⟨hmade, hjoined⟩ := h _ _ _ hrecord
    rw [links, List.map_map] at hmade
    rw [g.setLast_of_record? hrecord]
    exact addRelation_of_has hmade hjoined
  | addAttribute record | applyFunction record =>
    have hrecord : op.record? = some (.attribute, record.source, record.morphId) := by
      rw [Operation.record?, haction]
    obtain ⟨hmade, hjoined⟩ := h _ _ _ hrecord
    rw [links, List.map_map] at hmade
    rw [g.setLast_of_record? hrecord]
    exact addAttribute_of_has hmade hjoined
  | updateField record => exact ⟨_, g.updateField_eq_setLast haction⟩
  | addNode | addMorph | setDescription | setCurrency =>
    refine ⟨g.errors, ?_⟩
    simp [setLast, lastSet, Operation.describes?, Operation.description?,
      Operation.currency?, haction]

/-! ### Graphs without their errors -/

/-- A graph that says nothing of unresolved references. -/
def silent (g : Graph) : Graph := { g with errors := [] }

@[simp] theorem nodes_silent (g : Graph) : g.silent.nodes = g.nodes := rfl

@[simp] theorem edges_silent (g : Graph) : g.silent.edges = g.edges := rfl

@[simp] theorem attributes_silent (g : Graph) : g.silent.attributes = g.attributes := rfl

theorem silent_replay (g : Graph) (op : Operation) :
    (g.silent.replay op).silent = (g.replay op).silent := by
  have htarget : g.silent.targetMorph = g.targetMorph := targetMorph_congr rfl
  have hnode : g.silent.node? = g.node? := rfl
  unfold replay
  cases op.action with
  | addRelation record =>
    simp only [addRelation_eq, makeEdge_eq, htarget, edges_silent]
    cases g.targetMorph .relation op.id record.source record.morphId with
    | error e => rfl
    | ok m =>
      simp only
      split_ifs <;> rfl
  | addAttribute record | applyFunction record =>
    simp only [addAttribute_eq, makeAttribute_eq, htarget, attributes_silent]
    generalize g.targetMorph .attribute _ _ record.morphId = target
    cases target with
    | error e => rfl
    | ok m =>
      simp only
      split_ifs <;> rfl
  | updateField record =>
    simp only [updateField, hnode]
    split_ifs <;> rfl
  | addNode | addMorph | setDescription | setCurrency => rfl

theorem silent_foldl_replay (ops : List Operation) :
    ∀ g : Graph, (ops.foldl replay g.silent).silent = (ops.foldl replay g).silent := by
  induction ops with
  | nil => exact fun _ => rfl
  | cons op rest ih =>
    intro g
    rw [List.foldl_cons, List.foldl_cons, ← ih (g.silent.replay op), silent_replay, ih]

/-- A stream that is done sets its values again. -/
theorem silent_foldl_replay_of_isDone (ops : List Operation) :
    ∀ {g : Graph}, (∀ op ∈ ops, g.IsDone op) →
      (ops.foldl replay g).silent = (g.setLast ops).silent := by
  induction ops with
  | nil => exact fun _ => by rw [setLast_nil, List.foldl_nil]
  | cons op rest ih =>
    intro g h
    obtain ⟨hop, hrest⟩ := List.forall_mem_cons.mp h
    rw [List.foldl_cons, ih fun other hother => (hrest other hother).replay op, setLast_cons]
    obtain ⟨errors, heq⟩ := hop.replay_eq
    rw [heq]
    rfl

/-- The third pass, made again, changes nothing. -/
theorem silent_foldl_replay_again (ops : List Operation) (g : Graph) :
    (ops.foldl replay (ops.foldl replay g)).silent = (ops.foldl replay g).silent := by
  rw [silent_foldl_replay_of_isDone ops (isDone_foldl_replay ops g), setLast_foldl_replay]

end Graph

/-! ### The first two passes -/

theorem foldl_addFirst_of_subset {α : Type} (key : α → String) {entries more : List α}
    (h : more.map key ⊆ entries.map key) : more.foldl (addFirst key) entries = entries := by
  induction more with
  | nil => rfl
  | cons entry rest ih =>
    rw [List.map_cons, List.cons_subset] at h
    rw [List.foldl_cons, addFirst_of_mem key h.1, ih h.2]

/-- Declarations that come again do not hold. -/
theorem declarations_append_self (ops : List Operation) :
    declarations (ops ++ ops) = declarations ops := by
  unfold declarations
  rw [List.filterMap_append, List.foldl_append]
  exact foldl_addFirst_of_subset Prod.fst fun id hid =>
    (mem_map_foldl_addFirst Prod.fst).mpr (.inr hid)

theorem Node.withMorphs_append (n : Node) (records more : List MorphRecord) :
    n.withMorphs (records ++ more) = (n.withMorphs records).withMorphs more :=
  List.foldl_append

theorem Node.withMorphs_of_mem {n : Node} {records : List MorphRecord}
    (h : ∀ record ∈ records, record.nodeId = n.id →
      record.morphId ∈ n.morphs.map (·.morphId)) : n.withMorphs records = n := by
  induction records with
  | nil => rfl
  | cons record rest ih =>
    obtain ⟨hrecord, hrest⟩ := List.forall_mem_cons.mp h
    have hkept : n.withMorph record = n := if_neg fun hand => hand.2 (hrecord hand.1)
    rw [withMorphs_cons, hkept, ih hrest]

theorem Node.withMorphs_append_self (n : Node) (records : List MorphRecord) :
    n.withMorphs (records ++ records) = n.withMorphs records := by
  rw [withMorphs_append]
  refine withMorphs_of_mem fun record hrecord hid => ?_
  rw [id_withMorphs] at hid
  rw [morphs_withMorphs]
  refine (mem_map_foldl_addFirst Morph.morphId).mpr (.inr (List.mem_map.mpr
    ⟨record.morph, List.mem_map_of_mem (List.mem_filter.mpr ⟨hrecord, ?_⟩), rfl⟩))
  exact decide_eq_true hid

namespace Graph

theorem exists_declareNode_eq (g : Graph) (op : Operation) :
    ∃ nodes errors, g.declareNode op = { g with nodes, errors } := by
  unfold declareNode
  cases op.action with
  | addNode record =>
    simp only [addNode]
    split_ifs
    · exact ⟨_, _, rfl⟩
    · exact ⟨_, _, rfl⟩
  | _ => exact ⟨_, _, rfl⟩

theorem exists_declareMorph_eq (g : Graph) (op : Operation) :
    ∃ nodes errors, g.declareMorph op = { g with nodes, errors } := by
  unfold declareMorph
  cases op.action with
  | addMorph record =>
    simp only [addMorph]
    cases g.node? record.nodeId with
    | none => exact ⟨_, _, rfl⟩
    | some node =>
      simp only
      split_ifs
      · exact ⟨_, _, rfl⟩
      · exact ⟨_, _, rfl⟩
  | _ => exact ⟨_, _, rfl⟩

theorem exists_foldl_eq {f : Graph → Operation → Graph}
    (hf : ∀ g op, ∃ nodes errors, f g op = { g with nodes, errors }) (ops : List Operation) :
    ∀ g : Graph, ∃ nodes errors, ops.foldl f g = { g with nodes, errors } := by
  induction ops with
  | nil => exact fun g => ⟨g.nodes, g.errors, rfl⟩
  | cons op rest ih =>
    intro g
    obtain ⟨nodes, errors, hop⟩ := hf g op
    obtain ⟨nodes', errors', hrest⟩ := ih (f g op)
    exact ⟨nodes', errors', by rw [List.foldl_cons, hrest, hop]⟩

theorem silent_declared (ops : List Operation) :
    (declared ops).silent = { nodes := (declarations ops).mapIdx (declaredNode ops) } := by
  obtain ⟨nodes, errors, hnodes⟩ := exists_foldl_eq exists_declareNode_eq ops {}
  obtain ⟨nodes', errors', hmorphs⟩ :=
    exists_foldl_eq exists_declareMorph_eq ops (ops.foldl declareNode {})
  have hdeclared : (declared ops).silent = { nodes := (declared ops).nodes } := by
    rw [declared, hmorphs, hnodes]
    rfl
  rw [hdeclared, nodes_declared]

theorem silent_declared_append_self (ops : List Operation) :
    (declared (ops ++ ops)).silent = (declared ops).silent := by
  have hnode : declaredNode (ops ++ ops) = declaredNode ops := by
    funext k d
    rw [declaredNode, List.filterMap_append, Node.withMorphs_append_self]
    rfl
  rw [silent_declared, silent_declared, declarations_append_self, hnode]

/-! ### Replaying a stream again -/

theorem silent_ofOperations_append_self (ops : List Operation) :
    (ofOperations (ops ++ ops)).silent = (ofOperations ops).silent := by
  have hfirst : (ops.foldl replay (declared (ops ++ ops))).silent = (ofOperations ops).silent := by
    rw [← silent_foldl_replay, silent_declared_append_self, silent_foldl_replay]
    rfl
  calc (ofOperations (ops ++ ops)).silent
      = (ops.foldl replay (ops.foldl replay (declared (ops ++ ops)))).silent := by
        rw [← List.foldl_append]
        rfl
    _ = (ops.foldl replay (ofOperations ops)).silent := by
        rw [← silent_foldl_replay, hfirst, silent_foldl_replay]
    _ = (ofOperations ops).silent := silent_foldl_replay_again ops (declared ops)

/-- **Streams replay idempotently**: a stream that is followed by itself gives the same graph,
but for the errors. The morphs of unknown nodes are reported again after the first time, and so
are the unresolved records and fields; there are no errors if there were none. -/
theorem ofOperations_append_self (ops : List Operation) :
    { ofOperations (ops ++ ops) with errors := (ofOperations ops).errors } = ofOperations ops ∧
      (∃ morphs records, (ofOperations ops).errors = morphs ++ records ∧
        (ofOperations (ops ++ ops)).errors = (morphs ++ morphs) ++ (records ++ records)) ∧
      ((ofOperations (ops ++ ops)).errors = [] ↔ (ofOperations ops).errors = []) := by
  have hsilent := silent_ofOperations_append_self ops
  have hnodes : (ofOperations (ops ++ ops)).nodes = (ofOperations ops).nodes :=
    by simpa only [nodes_silent] using congrArg Graph.nodes hsilent
  have hmorphs : (ofOperations (ops ++ ops)).morphError? = (ofOperations ops).morphError? :=
    morphError?_congr (congrArg (List.map (·.id)) hnodes)
  have hrecords : (ofOperations (ops ++ ops)).replayError? = (ofOperations ops).replayError? :=
    replayError?_congr (congrArg (List.map Node.bare) hnodes)
  have herrors := errors_ofOperations (ops ++ ops)
  rw [hmorphs, hrecords, List.filterMap_append, List.filterMap_append] at herrors
  refine ⟨?_, ⟨_, _, errors_ofOperations ops, herrors⟩, ?_⟩
  · calc { ofOperations (ops ++ ops) with errors := (ofOperations ops).errors }
        = { (ofOperations (ops ++ ops)).silent with errors := (ofOperations ops).errors } := rfl
      _ = ofOperations ops := by rw [hsilent]; rfl
  · rw [herrors, errors_ofOperations ops]
    simp only [List.append_eq_nil_iff, and_self]

end Graph

end NoteGraph
