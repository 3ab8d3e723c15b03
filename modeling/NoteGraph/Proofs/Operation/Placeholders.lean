import NoteGraph.Proofs.Graph.Books
import NoteGraph.Proofs.Operation.Told

/-!
# Placeholders and headings

A target gets a placeholder exactly when its node has no block and the text has not mentioned it
before. So a node has at most one placeholder, which comes before all else that the stream tells of
the node, and the node is made by it. The heading of a block suppresses the placeholder wherever
it stands; that of a mindmap does so only when no relation has led to its root before.
-/

namespace NoteGraph

open NoteGraph.Language

/-! ### Targets that declare their nodes -/

theorem nodup_placeholderAt? (ms : List Mention) : ∀ known : List String,
    (((marked known ms).filterMap placeholderAt?).map (·.1.id)).Nodup := by
  induction ms with
  | nil => exact fun _ => List.nodup_nil
  | cons m rest ih =>
    intro known
    rw [marked, List.filterMap_cons]
    cases hp : placeholderAt? (m, m.isNew known) with
    | none => exact ih _
    | some p =>
      obtain ⟨relation, t, heq, rfl⟩ := placeholderAt?_eq_some_iff.mp hp
      obtain ⟨rfl, -⟩ := Prod.mk.inj heq
      refine List.nodup_cons.mpr ⟨fun hmem => ?_, ih _⟩
      obtain ⟨q, hq, hid⟩ := List.mem_map.mp hmem
      obtain ⟨m', hm', hq⟩ := List.mem_filterMap.mp hq
      obtain ⟨relation', t', rfl, rfl⟩ := placeholderAt?_eq_some_iff.mp hq
      have hknown := ((target_mem_marked_iff rest _).mp hm').1
      exact hknown (List.mem_cons.mpr (.inl hid))

/-! ### First events -/

/-- The node that an event is about. -/
def Event.nodeId : Event → String
  | declares op => op.id
  | leads target _ => target

/-- Whether an operation tells of a node. -/
def Operation.tellsOf (id : String) (op : Operation) : Bool :=
  op.event?.any fun event => event.nodeId == id

theorem nodeId_of_mem_eventsAt {m : Mention × Bool} {event : Event} (h : event ∈ eventsAt m) :
    event.nodeId = m.1.nodeId := by
  rcases List.mem_append.mp h with h | h
  · split_ifs at h
    · rw [List.mem_singleton.mp h]
      exact m.1.id_declaration
    · cases h
  · unfold Mention.leads at h
    cases hm : m.1 <;> rw [hm] at h <;> simp at h <;> rw [h] <;> rfl

/-- Where a target declares its node, nothing has been told of the node before. -/
theorem find?_eventsAt {relation : String} {t : Target} (ms : List Mention) :
    ∀ known : List String, (Mention.target relation t, true) ∈ marked known ms →
      ((marked known ms).flatMap eventsAt).find? (·.nodeId == t.nodeId) =
        some (.declares (Mention.target relation t).declaration) := by
  induction ms with
  | nil => exact fun _ h => by cases h
  | cons m rest ih =>
    intro known h
    rw [marked, List.flatMap_cons, List.find?_append]
    rcases List.mem_cons.mp h with heq | h
    · rw [← heq]
      simp [eventsAt, Event.nodeId, Mention.nodeId]
    · have hne : m.nodeId ≠ t.nodeId := fun heq =>
        ((target_mem_marked_iff rest _).mp h).1 (List.mem_cons.mpr (.inl heq.symm))
      rw [List.find?_eq_none.mpr fun event hevent => ?_, Option.none_or, ih _ h]
      rw [nodeId_of_mem_eventsAt hevent]
      simpa using hne

theorem Operation.event?_eq_declares_iff {op op' : Operation} :
    op.event? = some (.declares op') ↔ op.node?.isSome ∧ op = op' := by
  unfold event? node?
  cases op.action <;> simp

theorem find?_tellsOf {ops : List Operation} {id : String} {op : Operation}
    (h : (ops.filterMap Operation.event?).find? (·.nodeId == id) = some (.declares op)) :
    ops.find? (·.tellsOf id) = some op := by
  rw [List.find?_filterMap] at h
  obtain ⟨first, hfirst, hop⟩ := Option.bind_eq_some_iff.mp h
  rw [← (Operation.event?_eq_declares_iff.mp hop).2]
  exact hfirst

/-! ### Placeholders of texts -/

section Text

variable {text : String}

theorem exists_target_of_mem_placeholders {p : Operation × RelationRecord}
    (hp : p ∈ placeholders (operationsOf text)) :
    ∃ relation t, (Mention.target relation t, true) ∈ markedMentions text ∧
      p.1 = (Mention.target relation t).declaration ∧ p.2.targetSurface = some t.surface := by
  have hmem := List.mem_map_of_mem (f := fun p => (p.1, p.2.targetSurface)) hp
  rw [placeholders_operationsOf] at hmem
  obtain ⟨m, hm, hat⟩ := List.mem_filterMap.mp hmem
  obtain ⟨relation, t, rfl, heq⟩ := placeholderAt?_eq_some_iff.mp hat
  obtain ⟨hfirst, hsurface⟩ := Prod.mk.inj heq
  exact ⟨relation, t, hm, hfirst, hsurface⟩

theorem exists_placeholder {relation : String} {t : Target}
    (ht : (Mention.target relation t, true) ∈ markedMentions text) :
    ∃ p ∈ placeholders (operationsOf text),
      p.1 = (Mention.target relation t).declaration ∧ p.2.targetSurface = some t.surface := by
  have hmem := List.mem_filterMap.mpr
    ⟨_, ht, placeholderAt?_eq_some_iff.mpr ⟨relation, t, rfl, rfl⟩⟩
  rw [← placeholders_operationsOf] at hmem
  obtain ⟨p, hp, heq⟩ := List.mem_map.mp hmem
  obtain ⟨hfirst, hsurface⟩ := Prod.mk.inj heq
  exact ⟨p, hp, hfirst, hsurface⟩

/-- The nodes with placeholders are those without blocks that a target mentions first. -/
theorem mem_placeholders_iff {id : String} :
    id ∈ (placeholders (operationsOf text)).map (·.1.id) ↔ id ∉ headed (mentions text) ∧
      ∃ relation t, firstMention? (mentions text) id = some (.target relation t) := by
  constructor
  · intro hid
    obtain ⟨p, hp, rfl⟩ := List.mem_map.mp hid
    obtain ⟨relation, t, ht, hfirst, -⟩ := exists_target_of_mem_placeholders hp
    obtain ⟨hheaded, hmention⟩ := (target_mem_marked_iff _ _).mp ht
    rw [hfirst]
    exact ⟨hheaded, relation, t, hmention⟩
  · rintro ⟨hheaded, relation, t, hmention⟩
    have hid : (Mention.target relation t).nodeId = id := by simpa using List.find?_some hmention
    subst hid
    obtain ⟨p, hp, hfirst, -⟩ :=
      exists_placeholder ((target_mem_marked_iff _ _).mpr ⟨hheaded, hmention⟩)
    exact List.mem_map.mpr ⟨p, hp, hfirst ▸ rfl⟩

theorem nodup_placeholders (text : String) :
    ((placeholders (operationsOf text)).map (·.1.id)).Nodup := by
  have hnodup := nodup_placeholderAt? (mentions text) (headed (mentions text))
  rw [← markedMentions, ← placeholders_operationsOf, List.map_map] at hnodup
  exact hnodup

/-- A placeholder is the first that the stream tells of its node. -/
theorem find?_tellsOf_placeholder {p : Operation × RelationRecord}
    (hp : p ∈ placeholders (operationsOf text)) :
    (operationsOf text).find? (·.tellsOf p.1.id) = some p.1 := by
  obtain ⟨relation, t, ht, hfirst, -⟩ := exists_target_of_mem_placeholders hp
  rw [hfirst]
  refine find?_tellsOf ?_
  rw [events_operationsOf]
  exact find?_eventsAt _ _ ht

end Text

/-! ### Nodes and their declarations -/

/-- A node whose role and names are those that an operation declares; apart from its morphs and
its description it is the new node of the operation. -/
def Node.IsDeclaredBy (n : Node) (op : Operation) : Prop :=
  n.id = op.id ∧ ∃ record number, op.node? = some record ∧
    { n.bare with others := [] } = Graph.newNode op.id record number

/-- Whether an operation declares a node of an identifier. -/
def Operation.declaresNode (id : String) (op : Operation) : Bool := op.id == id && op.node?.isSome

theorem lookup_declarations (ops : List Operation) (id : String) :
    (ops.filterMap Operation.declaration?).lookup id =
      (ops.find? (·.declaresNode id)).bind Operation.node? := by
  induction ops with
  | nil => rfl
  | cons op rest ih =>
    unfold Operation.declaration? Operation.declaresNode at ih ⊢
    cases hnode : op.node? with
    | none => simp [hnode, ih]
    | some record =>
      by_cases hid : op.id = id
      · simp [hnode, hid]
      · have hne : (id == op.id) = false := beq_eq_false_iff_ne.mpr fun h => hid h.symm
        simp [hnode, hid, List.lookup_cons, hne, ih]

theorem Node.others_withMorphs (n : Node) (records : List MorphRecord) :
    { n.withMorphs records with others := [] } = { n with others := [] } := by
  induction records generalizing n with
  | nil => rfl
  | cons record rest ih =>
    rw [withMorphs_cons, ih]
    unfold withMorph
    split_ifs <;> rfl

/-- The first declaration of a node makes it. -/
theorem exists_declaresNode {ops : List Operation} {n : Node}
    (hn : n ∈ (Graph.ofOperations ops).nodes) :
    ∃ op, ops.find? (·.declaresNode n.id) = some op ∧ n.IsDeclaredBy op := by
  obtain ⟨k, d, hd, hbare⟩ := Graph.exists_declaration hn
  have hid := Graph.id_of_bare hbare
  have hlookup : (ops.filterMap Operation.declaration?).lookup n.id = some d.2 := by
    have hfirst := lookup_foldl_addFirst (ops.filterMap Operation.declaration?) n.id []
    rw [List.nil_append] at hfirst
    rw [← hfirst, hid]
    exact Keyed.lookup_eq_some_of_mem (nodup_declarations ops) (List.mem_of_getElem? hd)
  rw [lookup_declarations] at hlookup
  obtain ⟨op, hop, hnode⟩ := Option.bind_eq_some_iff.mp hlookup
  have hopid : op.id = n.id := by
    have hdeclares := List.find?_some hop
    simp only [Operation.declaresNode, Bool.and_eq_true, beq_iff_eq] at hdeclares
    exact hdeclares.1
  refine ⟨op, hop, hopid.symm, d.2, k + 1, hnode, ?_⟩
  rw [hbare, Graph.declaredNode, Node.others_withMorphs, hopid, hid]
  rfl

/-- What a stream declares is declared at a mention. -/
theorem exists_mention_of_node? {text : String} {op : Operation} (hop : op ∈ operationsOf text)
    (hnode : op.node?.isSome) : ∃ m, (m, true) ∈ markedMentions text ∧ op = m.declaration := by
  have hevent : Event.declares op ∈ (operationsOf text).filterMap Operation.event? :=
    List.mem_filterMap.mpr ⟨op, hop, Operation.event?_eq_declares_iff.mpr ⟨hnode, rfl⟩⟩
  rw [events_operationsOf] at hevent
  obtain ⟨⟨m, isNew⟩, hm, hat⟩ := List.mem_flatMap.mp hevent
  rcases List.mem_append.mp hat with hat | hat
  · cases isNew with
    | true => exact ⟨m, hm, Event.declares.inj (List.mem_singleton.mp hat)⟩
    | false => cases hat
  · cases m <;> simp [Mention.leads] at hat

/-- A node is made by a heading, a mindmap or a target, and by a target exactly if it has a
placeholder. -/
theorem exists_mention_of_node {text : String} {n : Node}
    (hn : n ∈ (Graph.ofOperations (operationsOf text)).nodes) :
    ∃ m ∈ mentions text, n.IsDeclaredBy m.declaration ∧
      (m.isTarget = true ↔ n.id ∈ (placeholders (operationsOf text)).map (·.1.id)) := by
  obtain ⟨op, hop, hdeclared⟩ := exists_declaresNode hn
  by_cases hid : n.id ∈ (placeholders (operationsOf text)).map (·.1.id)
  · -- the placeholder is the first of all that is told of the node
    obtain ⟨p, hp, hpid⟩ := List.mem_map.mp hid
    obtain ⟨relation, t, ht, hfirst, -⟩ := exists_target_of_mem_placeholders hp
    obtain ⟨-, before, behind, hops, hbefore⟩ :=
      List.find?_eq_some_iff_append.mp (find?_tellsOf_placeholder hp)
    have hsame : (operationsOf text).find? (·.declaresNode n.id) = some p.1 := by
      refine List.find?_eq_some_iff_append.mpr ⟨?_, before, behind, hops, fun other hother => ?_⟩
      · rw [Operation.declaresNode, hpid, beq_self_eq_true, hfirst]
        rfl
      · have htells := hbefore other hother
        rw [hpid, Bool.not_eq_true', Operation.tellsOf] at htells
        rw [Bool.not_eq_true', Operation.declaresNode]
        by_contra hdeclares
        rw [Bool.not_eq_false, Bool.and_eq_true, beq_iff_eq] at hdeclares
        rw [Operation.event?_eq_declares_iff.mpr ⟨hdeclares.2, rfl⟩, Option.any_some,
          beq_eq_false_iff_ne] at htells
        exact htells hdeclares.1
    obtain rfl := Option.some.inj (hop.symm.trans hsame)
    exact ⟨_, mem_of_mem_marked _ _ ht, hfirst ▸ hdeclared, iff_of_true rfl hid⟩
  · have hnode : op.node?.isSome := by
      obtain ⟨-, record, -, hrecord, -⟩ := hdeclared
      exact Option.isSome_iff_exists.mpr ⟨record, hrecord⟩
    obtain ⟨m, hm, rfl⟩ := exists_mention_of_node? (List.mem_of_find?_eq_some hop) hnode
    refine ⟨m, mem_of_mem_marked _ _ hm, hdeclared, iff_of_false (fun htarget => hid ?_) hid⟩
    obtain ⟨relation, t, rfl⟩ := Mention.isTarget_iff.mp htarget
    obtain ⟨p, hp, hfirst, -⟩ := exists_placeholder hm
    exact List.mem_map.mpr ⟨p, hp, by rw [hfirst, hdeclared.1]⟩

/-! ### Headings -/

/-- Whether a mention is a heading, of a node block or of a mindmap. -/
def Mention.isHeading : Mention → Bool
  | heading _ | root _ => true
  | _ => false

/-- Headings anywhere in a text leave no placeholders of their nodes. -/
def HeadingsSuppress (text : String) : Prop :=
  ∀ p ∈ placeholders (operationsOf text), ∀ m ∈ mentions text, m.isHeading = true →
    m.nodeId ≠ p.1.id

instance (text : String) : Decidable (HeadingsSuppress text) :=
  inferInstanceAs (Decidable (∀ p ∈ placeholders (operationsOf text), ∀ m ∈ mentions text, _))

/-- **Headings and placeholders**: headings suppress placeholders exactly when no relation leads
to the root of a mindmap before the text mentions it otherwise, unless the root has a block too.
In any text a node has at most one placeholder, it has one exactly when it has no block and a
target mentions it first, the placeholder comes before all else that the stream tells of the node,
and a node is made by a heading or a line of a mindmap unless it has a placeholder. -/
theorem headingsSuppress_iff (text : String) :
    (HeadingsSuppress text ↔ ∀ name, Mention.root name ∈ mentions text →
      (∃ relation t, firstMention? (mentions text) (cleanName name) = some (.target relation t)) →
        cleanName name ∈ headed (mentions text)) ∧
    ((placeholders (operationsOf text)).map (·.1.id)).Nodup ∧
    (∀ id, id ∈ (placeholders (operationsOf text)).map (·.1.id) ↔ id ∉ headed (mentions text) ∧
      ∃ relation t, firstMention? (mentions text) id = some (.target relation t)) ∧
    (∀ p ∈ placeholders (operationsOf text),
      (operationsOf text).find? (·.tellsOf p.1.id) = some p.1) ∧
    ∀ n ∈ (Graph.ofOperations (operationsOf text)).nodes, ∃ m ∈ mentions text,
      n.IsDeclaredBy m.declaration ∧
        (m.isTarget = true ↔ n.id ∈ (placeholders (operationsOf text)).map (·.1.id)) := by
  refine ⟨⟨fun h name hroot hfirst => ?_, fun h p hp m hm hheading hid => ?_⟩,
    nodup_placeholders text, fun _ => mem_placeholders_iff,
    fun _ hp => find?_tellsOf_placeholder hp, fun _ hn => exists_mention_of_node hn⟩
  · by_contra hheaded
    obtain ⟨p, hp, hpid⟩ := List.mem_map.mp (mem_placeholders_iff.mpr ⟨hheaded, hfirst⟩)
    exact h p hp _ hroot rfl hpid.symm
  · obtain ⟨hheaded, hfirst⟩ := mem_placeholders_iff.mp (List.mem_map_of_mem hp)
    cases m with
    | heading heading => exact hheaded (mem_headed_iff.mpr ⟨heading, hm, hid⟩)
    | root name =>
      change cleanName name = p.1.id at hid
      rw [← hid] at hheaded hfirst
      exact hheaded (h name hm hfirst)
    | item name => cases hheading
    | target relation t => cases hheading

/-- A relation leads to the root of a later mindmap, which is made by the placeholder. -/
theorem not_headingsSuppress_later_root :
    ¬HeadingsSuppress "# a\n<is> b;\n# B <rel>\n- c" ∧
      ((Graph.ofOperations (operationsOf "# a\n<is> b;\n# B <rel>\n- c")).node? "b").map (·.role) =
        some "class" := by
  decide +kernel

end NoteGraph
