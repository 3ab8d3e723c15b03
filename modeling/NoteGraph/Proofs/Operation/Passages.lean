import NoteGraph.Proofs.Graph.Books
import NoteGraph.Proofs.Operation.Fences

/-!
# Passages

A text is a sequence of passages: mindmaps and blocks of one node each. What a passage says of
nodes, relations and balances (`Passage.content`) does not depend on what stands before it. The
session only adds to it: placeholders for nodes that no heading declares, whose roles are plain,
and identifiers. So the stream of a text without morph headings says what its passages say, one
after another.
-/

namespace NoteGraph

open NoteGraph.Language

/-- A mindmap or the block of a node. -/
inductive Passage where
  | mindmap (lines : List String)
  | node (block : NodeBlock)
  deriving DecidableEq

/-- The passages of a part. -/
def Part.passages : Part → List Passage
  | .mindmap lines => [.mindmap lines]
  | .nodes blocks => blocks.map .node

/-- The passages of a text. -/
def passages (text : String) : List Passage :=
  ((splitBlocks (cutDescription false (linesOfText text)).1).map Part.ofBlock).flatMap
    Part.passages

/-! ### Content -/

/-- The declarations, the relations and the balances of a stretch of a text. -/
structure Content where
  declared : List (String × NodeRecord) := []
  relations : List RelationRecord := []
  balances : List (String × String) := []

namespace Content

/-- One content after another. -/
def append (c c' : Content) : Content :=
  ⟨c.declared ++ c'.declared, c.relations ++ c'.relations, c.balances ++ c'.balances⟩

/-- The contents of one thing after another. -/
def all {α : Type} (content : α → Content) (as : List α) : Content :=
  ⟨as.flatMap fun a => (content a).declared, as.flatMap fun a => (content a).relations,
    as.flatMap fun a => (content a).balances⟩

/-- The content of a target of a relation. -/
def ofTarget (node surface raw : String) : Content :=
  let target := Target.ofRaw raw
  if target.nodeId.isEmpty then {}
  else
    { relations := [{
        source := node
        target := target.nodeId
        name := (bookingRelations.lookup surface).getD surface
        weight := target.weight
        targetSurface := some target.surface }] }

/-- The content of a statement about a node. -/
def ofStatement (node : String) : Statement → Content
  | .description _ => {}
  | .attribute line => { balances := (balanceNamed? node line.name line.value).toList }
  | .function name => { balances := (balanceNamed? node name ("function:" ++ name)).toList }
  | .relation surface targets => all (ofTarget node surface) targets

/-- The declaration of a heading. -/
def ofHeading (heading : Heading) : Content :=
  { declared := [(heading.nodeId, {
      baseName := heading.baseName
      displayName := heading.displayName
      role := heading.role
      adjective := heading.adjective
      quantifier := heading.quantifier })] }

/-- The content of the block of a node, sections of morphs left out. -/
def ofBlock (block : NodeBlock) : Content :=
  (ofHeading (headingOf block)).append
    (all (ofStatement (headingOf block).nodeId) (statements false block.body))

/-- The content of the items of a mindmap. -/
def ofItems (root relation : String) : List (String × Nat) → List MindmapItem → Content
  | _, [] => {}
  | above, item :: rest =>
    let itemId := cleanName item.name
    let (parent, above) := parentOf root above item.indent
    append
      { declared := [(itemId, { baseName := item.name, displayName := item.name, role := "class" })]
        relations := [{ source := parent, target := itemId, name := relation }] }
      (ofItems root relation ((itemId, item.indent) :: above) rest)

/-- The content of a mindmap. -/
def ofMindmap : List String → Content
  | [] => {}
  | first :: rest =>
    match MindmapHeading.ofLine? first with
    | none => {}
    | some heading =>
      append
        { declared := [(cleanName heading.root, {
            baseName := heading.root, displayName := heading.root, role := individualRole })] }
        (ofItems (cleanName heading.root) heading.relation [] (rest.filterMap MindmapItem.ofLine?))

end Content

/-- The content of a passage. -/
def Passage.content : Passage → Content
  | mindmap lines => .ofMindmap lines
  | node block => .ofBlock block

/-! ### Streams that say a content -/

/-- A stretch of a stream that says a content, while one session becomes another. Of the nodes
that the session knows it declares what the content declares, and of others it may declare
placeholders too. -/
structure Says (s : TextSession) (ops : List Operation) (s' : TextSession) (c : Content) :
    Prop where
  keeps : s.declared ⊆ s'.declared
  morphs : ops.filterMap Operation.morph? = []
  relations : ops.filterMap Operation.relation? = c.relations
  balances : ops.filterMap Operation.balance? = c.balances
  known : ∀ id ∈ s.declared,
    (ops.filterMap Operation.declaration?).lookup id = c.declared.lookup id
  others : ∀ d ∈ ops.filterMap Operation.declaration?, d ∈ c.declared ∨ IsPlainRole d.2.role

namespace Says

variable {s s' s'' : TextSession} {ops more : List Operation} {c c' : Content}

theorem nil (s : TextSession) : Says s [] s {} :=
  ⟨List.Subset.refl _, rfl, rfl, rfl, fun _ _ => rfl, fun _ h => nomatch h⟩

theorem append (h : Says s ops s' c) (hmore : Says s' more s'' c') :
    Says s (ops ++ more) s'' (c.append c') where
  keeps := List.Subset.trans h.keeps hmore.keeps
  morphs := by rw [List.filterMap_append, h.morphs, hmore.morphs]; rfl
  relations := by rw [List.filterMap_append, h.relations, hmore.relations]; rfl
  balances := by rw [List.filterMap_append, h.balances, hmore.balances]; rfl
  known id hid := by
    rw [List.filterMap_append, List.lookup_append, h.known id hid, hmore.known id (h.keeps hid),
      Content.append, List.lookup_append]
  others d hd := by
    rw [List.filterMap_append, List.mem_append] at hd
    rcases hd with hd | hd
    · exact (h.others d hd).imp_left (List.mem_append_left _)
    · exact (hmore.others d hd).imp_left (List.mem_append_right _)

theorem cons {op : Operation} {c'' : Content} (h : Says s [op] s' c) (hmore : Says s' more s'' c')
    (hc : c'' = c.append c') : Says s (op :: more) s'' c'' :=
  hc ▸ h.append hmore

theorem all {α : Type} {step : TextSession → α → List Operation × TextSession}
    {content : α → Content} {as : List α}
    (hstep : ∀ a ∈ as, ∀ s, Says s (step s a).1 (step s a).2 (content a)) :
    ∀ s, Says s (operationsOfAll step s as).1 (operationsOfAll step s as).2
      (.all content as) := by
  induction as with
  | nil => exact nil
  | cons a rest ih =>
    intro s
    obtain ⟨ha, hrest⟩ := List.forall_mem_cons.mp hstep
    exact (ha s).append (ih hrest (step s a).2)

/-- An operation that declares neither a node nor a morph. -/
theorem record (s s' : TextSession) (hdeclared : s'.declared = s.declared) {op : Operation}
    (hnode : op.node? = none) (hmorph : op.morph? = none) :
    Says s [op] s' ⟨[], op.relation?.toList, op.balance?.toList⟩ := by
  have hdeclaration : op.declaration? = none := by rw [Operation.declaration?, hnode]; rfl
  refine ⟨hdeclared ▸ List.Subset.refl _, ?_, ?_, ?_, ?_, ?_⟩
  · simp [hmorph]
  · cases h : op.relation? <;> simp [h]
  · cases h : op.balance? <;> simp [h]
  · simp [hdeclaration]
  · simp [hdeclaration]

theorem node (s : TextSession) (nodeId : String) (r : NodeRecord) (origin : String) :
    Says s [⟨nodeId, .addNode r, origin⟩] (s.declaring nodeId) { declared := [(nodeId, r)] } :=
  ⟨fun _ hid => (s.mem_declared_declaring nodeId).mpr (Or.inl hid), rfl, rfl, rfl,
    fun _ _ => rfl, fun _ hd => Or.inl hd⟩

/-- A placeholder is only made for a node that the session does not know. -/
theorem placeholder {s : TextSession} {nodeId : String} {r : NodeRecord}
    (hnew : nodeId ∉ s.declared) (hrole : IsPlainRole r.role) (origin : String) :
    Says s [⟨nodeId, .addNode r, origin⟩] (s.declaring nodeId) {} := by
  have h := node s nodeId r origin
  refine ⟨h.keeps, rfl, rfl, rfl, fun id hid => ?_, fun d hd => Or.inr ?_⟩
  · have hne : id ≠ nodeId := fun heq => hnew (heq ▸ hid)
    exact Keyed.lookup_cons_of_ne hne
  · obtain rfl := List.mem_singleton.mp hd
    exact hrole

/-- Operations that say nothing may follow. -/
theorem appendPlain (h : Says s ops s' c)
    (hmore : ∀ op ∈ more, Says s' [op] s' {}) : Says s (ops ++ more) s' c := by
  have hnone : Says s' more s' {} := by
    induction more with
    | nil => exact nil s'
    | cons op rest ih =>
      obtain ⟨hop, hrest⟩ := List.forall_mem_cons.mp hmore
      exact hop.cons (ih hrest) rfl
  have happend : c.append {} = c := by simp [Content.append]
  exact happend ▸ h.append hnone

end Says

/-! ### Node blocks -/

theorem says_target (node surface : String) (s : TextSession) (raw : String) :
    Says s (targetOperations node none surface s raw).1
      (targetOperations node none surface s raw).2 (.ofTarget node surface raw) := by
  unfold targetOperations Content.ofTarget
  generalize Target.ofRaw raw = target
  by_cases hempty : target.nodeId.isEmpty = true
  · simp only [hempty, if_true]
    exact .nil s
  · simp only [hempty, Bool.false_eq_true, if_false]
    by_cases hknown : target.nodeId ∈ s.declared
    · have hdeclare : s.declare target.nodeId = (false, s) := by
        rw [Session.declare, if_pos (by simpa using hknown)]
      rw [hdeclare]
      refine .record s _ ?_ ?_ ?_ <;> rfl
    · have hdeclare : s.declare target.nodeId = (true, s.declaring target.nodeId) := by
        rw [Session.declaring, Session.declare, if_neg (by simpa using hknown)]
      rw [hdeclare]
      refine Says.cons (.placeholder hknown ?_ _) (.record _ _ ?_ ?_ ?_) ?_
      · simp only [IsPlainRole]
        split_ifs
        · exact Or.inr (Or.inr rfl)
        · exact Or.inl rfl
      all_goals rfl

theorem says_statement (node : String) (s : TextSession) (statement : Statement) :
    Says s (statementOperations node none s statement).1
      (statementOperations node none s statement).2 (.ofStatement node statement) := by
  cases statement with
  | description text => refine .record s _ ?_ ?_ ?_ <;> rfl
  | «attribute» line => refine .record s _ ?_ ?_ ?_ <;> rfl
  | function name => refine .record s _ ?_ ?_ ?_ <;> rfl
  | relation surface targets => exact .all (fun raw _ s => says_target node surface s raw) s

theorem says_block {block : NodeBlock} (h : block.morphs = []) (s : TextSession) :
    Says s (blockOperations s block).1 (blockOperations s block).2 (.ofBlock block) := by
  have hstep : ∀ statement ∈ statements false block.body, ∀ s,
      Says s (statementOperations (headingOf block).nodeId none s statement).1
        (statementOperations (headingOf block).nodeId none s statement).2
        (.ofStatement (headingOf block).nodeId statement) :=
    fun statement _ s => says_statement (headingOf block).nodeId s statement
  simp only [blockOperations, h, operationsOfAll, List.append_nil]
  exact Says.cons (.node s _ _ _) (.all hstep _) rfl

/-! ### Mindmaps -/

theorem says_items (root relation : String) (items : List MindmapItem) :
    ∀ (above : List (String × ℕ)) (s : TextSession),
      Says s (itemOperations root relation above s items).1
        (itemOperations root relation above s items).2 (.ofItems root relation above items) := by
  induction items with
  | nil => exact fun _ s => .nil s
  | cons item rest ih =>
    intro above s
    refine Says.cons (.node s _ _ _) (Says.cons (.record _ _ ?_ ?_ ?_) (ih _ _) rfl) ?_
    all_goals rfl

theorem says_mindmap (s : TextSession) (lines : List String) :
    Says s (mindmapOperations s lines).1 (mindmapOperations s lines).2 (.ofMindmap lines) := by
  cases lines with
  | nil => exact .nil s
  | cons first rest =>
    rw [mindmapOperations, Content.ofMindmap]
    cases MindmapHeading.ofLine? first with
    | none => exact .nil s
    | some heading => exact Says.cons (.node s _ _ _) (says_items _ _ _ _ _) rfl

/-! ### Texts -/

theorem says_part {part : Part} (h : ∀ block ∈ part.blocks, block.morphs = [])
    (s : TextSession) : Says s (partOperations s part).1 (partOperations s part).2
      (.all Passage.content part.passages) := by
  cases part with
  | mindmap lines =>
    have hcontent : Content.all Passage.content [.mindmap lines] = .ofMindmap lines := by
      simp [Content.all, Passage.content]
    exact hcontent ▸ says_mindmap s lines
  | nodes blocks =>
    have hcontent : Content.all Passage.content (blocks.map .node) =
        Content.all Content.ofBlock blocks := by
      simp only [Content.all, List.flatMap_map, Passage.content]
    exact hcontent ▸ Says.all (fun block hblock s => says_block (h block hblock) s) s

/-- The node blocks among the passages of parts. -/
theorem node_mem_passages {parts : List Part} {block : NodeBlock} :
    .node block ∈ parts.flatMap Part.passages ↔ block ∈ parts.flatMap Part.blocks := by
  rw [List.mem_flatMap, List.mem_flatMap]
  refine exists_congr fun part => and_congr_right fun _ => ?_
  cases part <;> simp [Part.passages, Part.blocks]

theorem node_mem_iff {text : String} {block : NodeBlock} :
    .node block ∈ passages text ↔ block ∈ nodeBlocks text :=
  node_mem_passages

/-- The stream of a text without morph headings says what its passages say, in a session that
knows from the start all nodes that have a block. -/
theorem says_operationsOf {text : String} (h : ∀ block ∈ nodeBlocks text, block.morphs = []) :
    ∃ s s', (∀ block ∈ nodeBlocks text, (headingOf block).nodeId ∈ s.declared) ∧
      Says s (operationsOf text) s' (.all Passage.content (passages text)) := by
  simp only [← node_mem_iff] at h ⊢
  rw [operationsOf, operationsIn_eq, operationsOfLines]
  unfold passages at h ⊢
  generalize cutDescription false (linesOfText text) = cut at h ⊢
  obtain ⟨lines, description⟩ := cut
  let parts := (splitBlocks lines).map Part.ofBlock
  let headings := (parts.flatMap Part.blocks).map fun block => (headingOf block).nodeId
  let start : TextSession := headings.foldl Session.declaring .empty
  have hstep : ∀ part ∈ parts, ∀ s, Says s (partOperations s part).1 (partOperations s part).2
      (.all Passage.content part.passages) := by
    intro part hpart
    refine says_part fun block hblock => h block (node_mem_passages.mpr ?_)
    exact List.mem_flatMap.mpr ⟨part, hpart, hblock⟩
  have hcontent : Content.all Passage.content (parts.flatMap Part.passages) =
      .all (fun part => .all Passage.content part.passages) parts := by
    simp only [Content.all, List.flatMap_assoc]
  refine ⟨start, (operationsOfAll partOperations start parts).2, fun block hblock => ?_, ?_⟩
  · exact (Session.mem_declared_foldl headings .empty).mpr
      (Or.inr (List.mem_map_of_mem (node_mem_passages.mp hblock)))
  · rw [hcontent]
    refine ((Says.all hstep start).appendPlain ?_).appendPlain ?_
    all_goals
      intro op hop
      obtain ⟨text, -, rfl⟩ := List.mem_map.mp hop
      refine .record _ _ ?_ ?_ ?_ <;> rfl

end NoteGraph
