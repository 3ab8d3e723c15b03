import NoteGraph.Proofs.Language.Names
import NoteGraph.Proofs.Operation.Placeholders

/-!
# Names that leave no identifier

The identifier of a name keeps few of its characters, and a name may have none of these. A target
of a relation without an identifier is left out. A heading or a line of a mindmap is not: it
declares a node with the empty identifier, and all such nodes are one. So the nodes of a stream
have identifiers exactly if the headings and the mindmaps of the text have names that leave one.
-/

namespace NoteGraph

open NoteGraph.Language NoteGraph.Text

/-! ### Identifiers of names -/

namespace Language

/-- Whether a name has a character that its identifier keeps. -/
def IsUsable (name : String) : Prop := ∃ c ∈ lower name.toList, isNameChar c = true

instance (name : String) : Decidable (IsUsable name) := List.decidableBEx _ _

theorem cleanName_eq_empty_iff {name : String} : cleanName name = "" ↔ ¬IsUsable name := by
  rw [cleanName_eq, nameWords, joinWords_eq_empty_iff fun w hw => ne_nil_of_mem_words hw,
    words_eq_nil_iff]
  simp only [IsUsable, not_exists, not_and, List.mem_filter, Bool.or_eq_true, and_imp,
    Bool.not_eq_true]
  refine forall₂_congr fun c _ => ⟨fun h => ?_, fun h hkept => ?_⟩
  · by_contra hname
    rw [Bool.not_eq_false] at hname
    have hnot := isNameChar_of_isBlank (h (.inl hname))
    rw [hname] at hnot
    cases hnot
  · simpa [h] using hkept

/-- Letters of other scripts are not kept, nor are those with accents. -/
example : ¬IsUsable "水" ∧ ¬IsUsable "É" ∧ IsUsable "Água" := by decide

/-- An adjective leaves an identifier, whatever its characters. -/
theorem nodeId_eq_empty_iff {baseName : String} {adjective : Option String} :
    Language.nodeId baseName adjective = "" ↔
      adjective.filter (!·.isEmpty) = none ∧ ¬IsUsable baseName := by
  rw [← cleanName_eq_empty_iff, Language.nodeId]
  cases adjective.filter (!·.isEmpty) <;> simp

end Language

/-! ### Mentions with names -/

/-- Whether the identifiers of nodes that an operation declares or relates are not empty. -/
def Operation.IsNamed (op : Operation) : Prop :=
  (op.node?.isSome → op.id ≠ "") ∧ ∀ record ∈ op.relation?, record.source ≠ "" ∧ record.target ≠ ""

instance (op : Operation) : Decidable op.IsNamed :=
  inferInstanceAs (Decidable ((op.node?.isSome → op.id ≠ "") ∧ ∀ record ∈ op.relation?, _))

/-- Whether a mention leaves an identifier: a heading with an adjective does, other headings and
the lines of a mindmap do if their names have a character for it, and targets always do. -/
def Mention.HasName : Mention → Prop
  | heading h => h.adjective.filter (!·.isEmpty) ≠ none ∨ IsUsable h.baseName
  | root name | item name => IsUsable name
  | target .. => True

/-- What holds of the headings of blocks, of the lines of mindmaps and of the targets with
identifiers holds of every mention. -/
theorem forall_mentions {P : Mention → Prop} (text : String)
    (hheading : ∀ block, P (.heading (headingOf block))) (hroot : ∀ name, P (.root name))
    (hitem : ∀ name, P (.item name))
    (htarget : ∀ relation raw, (Target.ofRaw raw).nodeId ≠ "" →
      P (.target relation (Target.ofRaw raw))) : ∀ m ∈ mentions text, P m := by
  have hstatement : ∀ statement, ∀ m ∈ statementMentions statement, P m := by
    intro statement m hm
    cases statement with
    | relation name targets =>
      obtain ⟨raw, -, hm⟩ := List.mem_flatMap.mp hm
      rw [targetMentions] at hm
      generalize htarget' : Target.ofRaw raw = t at hm
      by_cases hempty : t.nodeId.isEmpty = true
      · rw [if_pos hempty] at hm
        cases hm
      · rw [if_neg hempty] at hm
        rw [List.mem_singleton.mp hm, ← htarget']
        exact htarget name raw (by simpa [htarget'] using hempty)
    | description text => cases hm
    | «attribute» line => cases hm
    | function name => cases hm
  have hsection : ∀ lines, ∀ m ∈ sectionMentions lines, P m := fun lines =>
    List.forall_mem_flatMap.mpr fun statement _ => hstatement statement
  refine List.forall_mem_flatMap.mpr fun passage _ => ?_
  cases passage with
  | mindmap lines =>
    cases lines with
    | nil => exact List.forall_mem_nil _
    | cons first rest =>
      rw [Passage.mentions, mindmapMentions]
      cases MindmapHeading.ofLine? first with
      | none => exact List.forall_mem_nil _
      | some heading =>
        exact List.forall_mem_cons.mpr ⟨hroot _, List.forall_mem_map.mpr fun item _ => hitem _⟩
  | node block =>
    exact List.forall_mem_cons.mpr ⟨hheading block, List.forall_mem_append.mpr
      ⟨hsection _, List.forall_mem_flatMap.mpr fun part _ => hsection part.lines⟩⟩

/-! ### Nodes without a name -/

section Stream

variable {text : String} {m : Mention}

theorem nodeId_eq_empty_iff_of_mem (hm : m ∈ mentions text) : m.nodeId = "" ↔ ¬m.HasName := by
  refine forall_mentions (P := fun m => m.nodeId = "" ↔ ¬m.HasName) text ?_ ?_ ?_ ?_ m hm
  · intro block
    rw [Mention.HasName, not_or, not_not]
    exact nodeId_eq_empty_iff
  · exact fun name => cleanName_eq_empty_iff
  · exact fun name => cleanName_eq_empty_iff
  · exact fun relation raw hne => iff_of_false hne (not_not_intro trivial)

theorem mem_nodeIds_iff {ops : List Operation} {id : String} :
    id ∈ nodeIds ops ↔ ∃ op ∈ ops, op.node?.isSome ∧ op.id = id := by
  simp only [nodeIds, Operation.declaration?, List.mem_map, List.mem_filterMap,
    Option.map_eq_some_iff, Option.isSome_iff_exists]
  constructor
  · rintro ⟨-, ⟨op, hop, record, hrecord, rfl⟩, rfl⟩
    exact ⟨op, hop, ⟨record, hrecord⟩, rfl⟩
  · rintro ⟨op, hop, ⟨record, hrecord⟩, rfl⟩
    exact ⟨_, ⟨op, hop, record, hrecord, rfl⟩, rfl⟩

/-- The stream declares the node without an identifier if a mention leaves none. -/
theorem empty_mem_nodeIds_iff :
    "" ∈ nodeIds (operationsOf text) ↔ ∃ m ∈ mentions text, ¬m.HasName := by
  rw [mem_nodeIds_iff]
  constructor
  · rintro ⟨op, hop, hnode, hid⟩
    obtain ⟨m, hm, rfl⟩ := exists_mention_of_node? hop hnode
    have hmention := mem_of_mem_marked _ _ hm
    rw [m.id_declaration] at hid
    exact ⟨m, hmention, (nodeId_eq_empty_iff_of_mem hmention).mp hid⟩
  · rintro ⟨m, hm, hname⟩
    have htarget : m.isTarget = false := by
      cases m with
      | target relation t => exact absurd trivial hname
      | heading h => rfl
      | root name => rfl
      | item name => rfl
    obtain ⟨isNew, hmarked⟩ := exists_mem_marked hm (headed (mentions text))
    obtain rfl := isNew_of_mem_marked htarget _ _ hmarked
    have hevent : Event.declares m.declaration ∈
        (operationsOf text).filterMap Operation.event? := by
      rw [events_operationsOf]
      exact List.mem_flatMap.mpr ⟨_, hmarked, List.mem_append_left _ (List.mem_singleton_self _)⟩
    obtain ⟨op, hop, hdeclares⟩ := List.mem_filterMap.mp hevent
    obtain ⟨hnode, rfl⟩ := Operation.event?_eq_declares_iff.mp hdeclares
    exact ⟨_, hop, hnode, m.id_declaration.trans ((nodeId_eq_empty_iff_of_mem hm).mpr hname)⟩

/-- Relations lead from and to declared nodes, so only declarations can lack a name. -/
theorem forall_isNamed_iff :
    (∀ op ∈ operationsOf text, op.IsNamed) ↔ "" ∉ nodeIds (operationsOf text) := by
  constructor
  · intro hnamed hmem
    obtain ⟨op, hop, hnode, hid⟩ := mem_nodeIds_iff.mp hmem
    exact (hnamed op hop).1 hnode hid
  · intro hempty op hop
    refine ⟨fun hnode hid => hempty (mem_nodeIds_iff.mpr ⟨op, hop, hnode, hid⟩), ?_⟩
    intro record hrecord
    have hall : (operationsOfAll operationsIn .empty [text]).1 = operationsOf text :=
      List.append_nil _
    have hrefs : op.references =
        .target record.target :: recordReferences record.source record.morphId := by
      unfold Operation.relation? at hrecord
      unfold Operation.references
      cases haction : op.action <;> rw [haction] at hrecord <;> cases hrecord
      rfl
    have hknown : ∀ ref ∈ op.references,
        ref.Known (nodeIds (operationsOf text)) (morphKeys (operationsOf text)) := by
      rw [← hall] at hop ⊢
      exact fun _ => known_of_mem_references [text] hop
    rw [hrefs] at hknown
    have hsource := hknown (.node record.source) (by simp [recordReferences])
    have htarget := hknown (.target record.target) List.mem_cons_self
    exact ⟨fun heq => hempty (heq ▸ hsource), fun heq => hempty (heq ▸ htarget)⟩

end Stream

/-- **Nodes have identifiers** exactly when the headings and the mindmaps of a text have names that
leave one: all declarations of its stream and the ends of all its relations then do, and otherwise
all nodes without a name are one node of the graph. -/
theorem forall_isNamed_operationsOf_iff (text : String) :
    ((∀ op ∈ operationsOf text, op.IsNamed) ↔ ∀ m ∈ mentions text, m.HasName) ∧
    ((Graph.ofOperations (operationsOf text)).node? "" = none ↔
      ∀ m ∈ mentions text, m.HasName) := by
  have hnameless : "" ∉ nodeIds (operationsOf text) ↔ ∀ m ∈ mentions text, m.HasName := by
    rw [empty_mem_nodeIds_iff]
    push Not
    rfl
  refine ⟨forall_isNamed_iff.trans hnameless, ?_⟩
  rw [← hnameless, ← Graph.mem_nodes_iff, ← Graph.node?_isSome_iff, Bool.not_eq_true,
    Option.isSome_eq_false_iff, Option.isNone_iff_eq_none]

/-- Two headings that have nothing in common make one node without a name. -/
theorem not_forall_isNamed_headings :
    ¬(∀ op ∈ operationsOf "# !!!\n# ???", op.IsNamed) ∧
    ((operationsOf "# !!!\n# ???").map fun op => (op.id, op.node?.map (·.baseName))) =
      [("", some "!!!"), ("", some "???")] ∧
    (Graph.ofOperations (operationsOf "# !!!\n# ???")).nodes.map (·.id) = [""] := by
  decide +kernel

end NoteGraph
