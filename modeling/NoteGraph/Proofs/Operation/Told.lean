import NoteGraph.Proofs.Operation.Grounded
import NoteGraph.Proofs.Operation.Mentions

/-!
# What streams tell of nodes

A stream tells that there is a node, or that a relation leads to one. What the stream of a text
tells is determined by the mentions of the text in their order (`events_operationsOf`). A
placeholder is a declaration in front of a relation that leads to its node from another one, and
the placeholders of the stream are the declarations of targets (`placeholders_operationsOf`).
-/

namespace NoteGraph

open NoteGraph.Language

/-! ### Events -/

/-- What a stream tells of nodes: that there is one, or that a relation leads to one. -/
inductive Event where
  | declares (op : Operation)
  | leads (target : String) (surface : Option String)
  deriving DecidableEq

/-- What an operation tells of a node. -/
def Operation.event? (op : Operation) : Option Event :=
  match op.action with
  | .addNode _ => some (.declares op)
  | .addRelation record => some (.leads record.target record.targetSurface)
  | _ => none

@[simp] theorem Mention.event?_declaration (m : Mention) :
    m.declaration.event? = some (.declares m.declaration) := by
  cases m <;> rfl

/-- The relation that leads to the node of a mention. -/
def Mention.leads : Mention → List Event
  | target _ t => [.leads t.nodeId (some t.surface)]
  | item name => [.leads (cleanName name) none]
  | _ => []

/-- What the stream tells at a mention. -/
def eventsAt (m : Mention × Bool) : List Event :=
  (if m.2 then [.declares m.1.declaration] else []) ++ m.1.leads

/-! ### Placeholders -/

/-- The relation for which an operation declares a node: the next operation makes it, and it leads
to the node from another one. -/
def Operation.standsFor? (op next : Operation) : Option RelationRecord :=
  if op.node?.isSome && op.origin == textOrigin then
    next.relation?.filter fun record => record.target == op.id && record.source != op.id
  else none

/-- The placeholders of a stream, each with the relation that it stands for. -/
def placeholders : List Operation → List (Operation × RelationRecord)
  | op :: next :: rest =>
    ((op.standsFor? next).map fun record => (op, record)).toList ++ placeholders (next :: rest)
  | _ => []

/-- The placeholder of a mention and how the relation behind it spells the node. -/
def placeholderAt? : Mention × Bool → Option (Operation × Option String)
  | (.target relation t, true) => some ((Mention.target relation t).declaration, some t.surface)
  | _ => none

theorem placeholderAt?_eq_some_iff {m : Mention × Bool} {p : Operation × Option String} :
    placeholderAt? m = some p ↔ ∃ relation t, m = (.target relation t, true) ∧
      p = ((Mention.target relation t).declaration, some t.surface) := by
  constructor
  · obtain ⟨m, isNew⟩ := m
    intro h
    cases m with
    | target relation t =>
      cases isNew with
      | true => exact ⟨relation, t, rfl, (Option.some.inj h).symm⟩
      | false => cases h
    | heading h' => cases h
    | root name => cases h
    | item name => cases h
  · rintro ⟨relation, t, rfl, rfl⟩
    rfl

/-- Where two stretches meet, the last operation of the one does not stand for the first of the
other. -/
def Meet (ops more : List Operation) : Prop :=
  ∀ op ∈ ops.getLast?, ∀ next ∈ more.head?, op.standsFor? next = none

theorem placeholders_append {ops more : List Operation} (h : Meet ops more) :
    placeholders (ops ++ more) = placeholders ops ++ placeholders more := by
  induction ops with
  | nil => rfl
  | cons op rest ih =>
    cases rest with
    | nil =>
      cases more with
      | nil => rfl
      | cons next more =>
        rw [List.singleton_append, placeholders, h op rfl next rfl]
        rfl
    | cons next rest =>
      have hrest := ih fun last hlast => h last (by rwa [List.getLast?_cons_cons])
      simp only [List.cons_append] at hrest ⊢
      rw [placeholders, placeholders, hrest, List.append_assoc]

namespace Operation

theorem standsFor?_of_node? {op : Operation} (h : op.node? = none) (next : Operation) :
    op.standsFor? next = none := by
  rw [standsFor?, h]
  rfl

theorem standsFor?_of_relation? (op : Operation) {next : Operation} (h : next.relation? = none) :
    op.standsFor? next = none := by
  rw [standsFor?, h]
  exact ite_self none

theorem standsFor?_of_origin {op : Operation} (h : op.origin ≠ textOrigin) (next : Operation) :
    op.standsFor? next = none := by
  rw [standsFor?, beq_eq_false_iff_ne.mpr h, Bool.and_false]
  rfl

end Operation

/-! ### Stretches that tell of mentions -/

/-- A stretch of a stream that tells of mentions while one session becomes another, and has a
shape. -/
structure Tells (shape : List Operation → Prop) (s : TextSession) (ops : List Operation)
    (s' : TextSession) (ms : List Mention) : Prop where
  knows : ∀ id, id ∈ s'.declared ↔ id ∈ s.declared ∨ id ∈ ms.map Mention.nodeId
  events : ops.filterMap Operation.event? = (marked s.declared ms).flatMap eventsAt
  placeholders : (placeholders ops).map (fun p => (p.1, p.2.targetSurface)) =
    (marked s.declared ms).filterMap placeholderAt?
  shape : shape ops

/-- A shape of stretches that may follow one another. -/
structure IsJoinable (shape : List Operation → Prop) : Prop where
  nil : shape []
  append {ops more : List Operation} : shape ops → shape more → shape (ops ++ more)
  meet {ops more : List Operation} : shape ops → shape more → Meet ops more

namespace Tells

variable {shape shape' : List Operation → Prop} {s s' s'' : TextSession}
  {ops more : List Operation} {ms ms' : List Mention}

theorem nil (h : shape []) (s : TextSession) : Tells shape s [] s [] :=
  ⟨fun id => by simp, rfl, rfl, h⟩

theorem keeps (h : Tells shape s ops s' ms) : s.declared ⊆ s'.declared :=
  fun id hid => (h.knows id).mpr (.inl hid)

theorem join (h : Tells shape s ops s' ms) (hmore : Tells shape' s' more s'' ms')
    (hmeet : Meet ops more) {shape'' : List Operation → Prop} (hshape : shape'' (ops ++ more)) :
    Tells shape'' s (ops ++ more) s'' (ms ++ ms') where
  knows id := by
    rw [hmore.knows, h.knows, List.map_append, List.mem_append, or_assoc]
  events := by
    rw [List.filterMap_append, h.events, hmore.events, marked_append ms ms' h.knows,
      List.flatMap_append]
  placeholders := by
    rw [placeholders_append hmeet, List.map_append, h.placeholders, hmore.placeholders,
      marked_append ms ms' h.knows, List.filterMap_append]
  shape := hshape

theorem append (hshape : IsJoinable shape) (h : Tells shape s ops s' ms)
    (hmore : Tells shape s' more s'' ms') : Tells shape s (ops ++ more) s'' (ms ++ ms') :=
  h.join hmore (hshape.meet h.shape hmore.shape) (hshape.append h.shape hmore.shape)

/-- A step that tells of mentions while something holds of the session does so many times over,
if that goes on to hold. -/
theorem all {α : Type} {step : TextSession → α → List Operation × TextSession}
    {mentions : α → List Mention} (hshape : IsJoinable shape) {P : TextSession → Prop}
    (hP : ∀ s s' : TextSession, s.declared ⊆ s'.declared → P s → P s')
    (hstep : ∀ s a, P s → Tells shape s (step s a).1 (step s a).2 (mentions a)) (as : List α) :
    ∀ s, P s → Tells shape s (operationsOfAll step s as).1 (operationsOfAll step s as).2
      (as.flatMap mentions) := by
  induction as with
  | nil => exact fun s _ => nil hshape.nil s
  | cons a rest ih =>
    intro s hs
    have h := hstep s a hs
    exact h.append hshape (ih (step s a).2 (hP s _ h.keeps hs))

/-- An operation that tells of no node. -/
theorem other (s s' : TextSession) {op : Operation} (hdeclared : s'.declared = s.declared)
    (hop : op.event? = none) (hshape : shape [op]) : Tells shape s [op] s' [] where
  knows id := by rw [hdeclared]; simp
  events := by rw [List.filterMap_cons_none hop]; rfl
  placeholders := rfl
  shape := hshape

end Tells

/-! ### Sections -/

/-- A stretch of the section of a node: its relations lead from the node, and no declaration ends
it. -/
structure IsSection (node : String) (ops : List Operation) : Prop where
  ends : ∀ op ∈ ops.getLast?, op.node? = none
  sources : ∀ op ∈ ops, ∀ record, op.relation? = some record → record.source = node

theorem isJoinable_isSection (node : String) : IsJoinable (IsSection node) where
  nil := ⟨by simp, by simp⟩
  append {ops more} h hmore := by
    refine ⟨fun op hop => ?_, List.forall_mem_append.mpr ⟨h.sources, hmore.sources⟩⟩
    rw [List.getLast?_append, Option.mem_def, Option.or_eq_some_iff] at hop
    rcases hop with hop | ⟨-, hop⟩
    · exact hmore.ends op hop
    · exact h.ends op hop
  meet h _ := fun op hop next _ => Operation.standsFor?_of_node? (h.ends op hop) next

theorem isSection_singleton {node : String} {op : Operation} (hnode : op.node? = none)
    (hsource : ∀ record, op.relation? = some record → record.source = node) :
    IsSection node [op] where
  ends _ h := Option.some.inj h ▸ hnode
  sources _ h := List.mem_singleton.mp h ▸ hsource

namespace Session

variable {σ : Type} {s : Session σ} {nodeId : String}

theorem declare_of_mem (h : nodeId ∈ s.declared) : s.declare nodeId = (false, s) :=
  if_pos (by simpa using h)

theorem declare_of_notMem (h : nodeId ∉ s.declared) :
    s.declare nodeId = (true, s.declaring nodeId) := by
  unfold declaring declare
  rw [if_neg (by simpa using h)]

end Session

section Section

variable {node : String} {morph : Option String}

theorem tells_target (surface : String) (s : TextSession) (raw : String) (hs : node ∈ s.declared) :
    Tells (IsSection node) s (targetOperations node morph surface s raw).1
      (targetOperations node morph surface s raw).2 (targetMentions surface raw) := by
  unfold targetOperations targetMentions
  generalize Target.ofRaw raw = target
  by_cases hempty : target.nodeId.isEmpty = true
  · rw [if_pos hempty, if_pos hempty]
    exact .nil (isJoinable_isSection node).nil s
  · rw [if_neg hempty, if_neg hempty]
    by_cases hknown : target.nodeId ∈ s.declared
    · have hnew : (Mention.target surface target).isNew s.declared = false := by
        simp [Mention.isNew, Mention.isTarget, Mention.nodeId, hknown]
      rw [Session.declare_of_mem hknown]
      refine ⟨fun id => ?_, ?_, ?_, isSection_singleton rfl fun record h => ?_⟩
      · simp only [List.map_cons, List.map_nil, List.mem_singleton]
        exact ⟨.inl, fun h => h.elim (fun h => h) fun h => h ▸ hknown⟩
      · rw [marked, hnew]
        rfl
      · rw [marked, hnew]
        rfl
      · obtain rfl := Option.some.inj h
        rfl
    · have hnew : (Mention.target surface target).isNew s.declared = true := by
        simp [Mention.isNew, Mention.isTarget, Mention.nodeId, hknown]
      have hne : node ≠ target.nodeId := fun h => hknown (h ▸ hs)
      rw [Session.declare_of_notMem hknown]
      refine ⟨fun id => ?_, ?_, ?_, ?_⟩
      · simp only [List.map_cons, List.map_nil, List.mem_singleton]
        exact s.mem_declared_declaring _
      · rw [marked, hnew]
        rfl
      · rw [marked, hnew]
        simp [placeholders, placeholderAt?, Operation.standsFor?, Operation.node?,
          Operation.relation?, Mention.declaration, marked, hne]
      · refine ⟨fun op hop => ?_, fun op hop record h => ?_⟩
        · obtain rfl := Option.some.inj hop
          rfl
        · rcases List.mem_cons.mp hop with rfl | hop
          · cases h
          · obtain rfl := List.mem_singleton.mp hop
            obtain rfl := Option.some.inj h
            rfl

theorem tells_statement (s : TextSession) (statement : Statement) (hs : node ∈ s.declared) :
    Tells (IsSection node) s (statementOperations node morph s statement).1
      (statementOperations node morph s statement).2 (statementMentions statement) := by
  cases statement with
  | description text => exact .other _ _ rfl rfl (isSection_singleton rfl fun _ h => nomatch h)
  | «attribute» line => exact .other _ _ rfl rfl (isSection_singleton rfl fun _ h => nomatch h)
  | function name => exact .other _ _ rfl rfl (isSection_singleton rfl fun _ h => nomatch h)
  | relation surface targets =>
    exact Tells.all (isJoinable_isSection node) (P := fun s => node ∈ s.declared)
      (fun _ _ hsub hs => hsub hs) (tells_target surface) targets s hs

theorem tells_section (s : TextSession) (lines : List String) (hs : node ∈ s.declared) :
    Tells (IsSection node) s (sectionOperations node morph s lines).1
      (sectionOperations node morph s lines).2 (sectionMentions lines) :=
  Tells.all (isJoinable_isSection node) (P := fun s => node ∈ s.declared)
    (fun _ _ hsub hs => hsub hs) tells_statement (statements false lines) s hs

theorem tells_morph (s : TextSession) (part : MorphSection) (hs : node ∈ s.declared) :
    Tells (IsSection node) s (morphOperations node s part).1 (morphOperations node s part).2
      (sectionMentions part.lines) :=
  Tells.append (isJoinable_isSection node)
    (.other s s.nextMorph.2 rfl rfl (isSection_singleton rfl fun _ h => by cases h))
    (tells_section _ part.lines hs)

end Section

/-! ### Passages -/

/-- A stretch that does not begin with a relation. -/
def IsPassage (ops : List Operation) : Prop := ∀ op ∈ ops.head?, op.relation? = none

theorem isJoinable_isPassage : IsJoinable IsPassage where
  nil := by simp [IsPassage]
  append {ops more} h hmore := by
    cases ops with
    | nil => exact hmore
    | cons op rest => exact h
  meet _ hmore := fun op _ next hnext => op.standsFor?_of_relation? (hmore next hnext)

/-- The declaration of a mention that is no target. -/
theorem Tells.declaration (s : TextSession) {m : Mention} (hm : m.isTarget = false)
    (hleads : m.leads = []) :
    Tells IsPassage s [m.declaration] (s.declaring m.nodeId) [m] where
  knows id := by
    rw [List.map_cons, List.map_nil, List.mem_singleton]
    exact s.mem_declared_declaring _
  events := by
    have hnew : m.isNew s.declared = true := by rw [Mention.isNew, hm]; rfl
    simp [marked, hnew, hleads, eventsAt]
  placeholders := by
    cases m <;> first | rfl | cases hm
  shape op hop := by
    obtain rfl := Option.some.inj hop
    cases m <;> rfl

theorem tells_block (s : TextSession) (block : NodeBlock) :
    Tells IsPassage s (blockOperations s block).1 (blockOperations s block).2
      (blockMentions block) := by
  let node := (headingOf block).nodeId
  have hnode : node ∈ (s.declaring node).declared := (s.mem_declared_declaring _).mpr (.inr rfl)
  have hbody : Tells (IsSection node) (s.declaring node)
      (sectionOperations node none (s.declaring node) block.body).1 _ _ :=
    tells_section _ block.body hnode
  have hrest := hbody.append (isJoinable_isSection node)
    (Tells.all (isJoinable_isSection node) (P := fun s => node ∈ s.declared)
      (fun _ _ hsub hs => hsub hs) tells_morph block.morphs _ (hbody.keeps hnode))
  have hheading : Tells IsPassage s [(Mention.heading (headingOf block)).declaration] _ _ :=
    .declaration s rfl rfl
  refine hheading.join hrest (fun op hop next hnext => ?_) fun op hop => ?_
  · -- a relation that follows the heading leads from the node itself
    obtain rfl := Option.some.inj hop
    cases hrelation : next.relation? with
    | none => exact Operation.standsFor?_of_relation? _ hrelation
    | some record =>
      have hsource := hrest.shape.sources next (List.mem_of_mem_head? hnext) record hrelation
      rw [Operation.standsFor?, hrelation, Option.filter_some, hsource]
      simp [node, Mention.nodeId]
  · obtain rfl := Option.some.inj hop
    rfl

/-- A stretch of a mindmap. -/
def IsMindmap (ops : List Operation) : Prop := ∀ op ∈ ops, op.origin = mindmapOrigin

theorem isJoinable_isMindmap : IsJoinable IsMindmap where
  nil := List.forall_mem_nil _
  append h hmore := List.forall_mem_append.mpr ⟨h, hmore⟩
  meet h _ := by
    intro op hop next _
    refine Operation.standsFor?_of_origin ?_ next
    rw [h op (List.mem_of_mem_getLast? hop)]
    decide

theorem tells_items (root relation : String) (items : List MindmapItem) :
    ∀ (above : List (String × ℕ)) (s : TextSession),
      Tells IsMindmap s (itemOperations root relation above s items).1
        (itemOperations root relation above s items).2
        (items.map fun item => .item item.name) := by
  induction items with
  | nil => exact fun _ s => .nil isJoinable_isMindmap.nil s
  | cons item rest ih =>
    intro above s
    have hitem (op : Operation) (s' : TextSession) (horigin : op.origin = mindmapOrigin)
        (hevent : op.event? = some (.leads (cleanName item.name) none))
        (hdeclared : s'.declared = (s.declaring (cleanName item.name)).declared) :
        Tells IsMindmap s [(Mention.item item.name).declaration, op] s' [.item item.name] := by
      refine ⟨fun id => ?_, ?_, ?_, ?_⟩
      · rw [hdeclared, List.map_cons, List.map_nil, List.mem_singleton]
        exact s.mem_declared_declaring _
      · rw [List.filterMap_cons, Mention.event?_declaration, List.filterMap_cons, hevent]
        rfl
      · rfl
      · intro op' hop
        rcases List.mem_cons.mp hop with rfl | hop
        · rfl
        · rwa [List.mem_singleton.mp hop]
    exact (hitem _ ((s.declaring (cleanName item.name)).claim _ none _).2 rfl rfl rfl).append
      isJoinable_isMindmap (ih _ _)

theorem tells_mindmap (s : TextSession) (lines : List String) :
    Tells IsPassage s (mindmapOperations s lines).1 (mindmapOperations s lines).2
      (mindmapMentions lines) := by
  cases lines with
  | nil => exact .nil isJoinable_isPassage.nil s
  | cons first rest =>
    rw [mindmapOperations, mindmapMentions]
    cases MindmapHeading.ofLine? first with
    | none => exact .nil isJoinable_isPassage.nil s
    | some heading =>
      have hroot : Tells IsPassage s [(Mention.root heading.root).declaration] _ _ :=
        .declaration s rfl rfl
      have hitems := tells_items (cleanName heading.root) heading.relation
        (rest.filterMap MindmapItem.ofLine?) [] (s.declaring (cleanName heading.root))
      refine hroot.join hitems (fun op hop next hnext => ?_) fun op hop => ?_
      · obtain rfl := Option.some.inj hop
        rfl
      · obtain rfl := Option.some.inj hop
        rfl

theorem tells_passage (s : TextSession) (passage : Passage) :
    Tells IsPassage s (passageOperations s passage).1 (passageOperations s passage).2
      passage.mentions := by
  cases passage with
  | mindmap lines => exact tells_mindmap s lines
  | node block => exact tells_block s block

/-! ### Texts -/

/-- Each mention of a text with whether it declares its node. -/
def markedMentions (text : String) : List (Mention × Bool) :=
  marked (headed (mentions text)) (mentions text)

theorem Tells.others (s : TextSession) {ops : List Operation} (h : ∀ op ∈ ops, op.event? = none) :
    Tells IsPassage s ops s [] := by
  induction ops with
  | nil => exact .nil isJoinable_isPassage.nil s
  | cons op rest ih =>
    have hop := h op List.mem_cons_self
    refine (Tells.other s s rfl hop fun first hfirst => ?_).append isJoinable_isPassage
      (ih fun other hother => h other (List.mem_cons_of_mem _ hother))
    obtain rfl := Option.some.inj hfirst
    unfold Operation.event? at hop
    unfold Operation.relation?
    cases haction : op.action <;> simp [haction] at hop ⊢

theorem event?_closingOperations (lines : List String) {op : Operation}
    (hop : op ∈ closingOperations lines) : op.event? = none := by
  rcases List.mem_append.mp hop with hop | hop
  all_goals
    obtain ⟨text, -, rfl⟩ := List.mem_map.mp hop
    rfl

/-- The stream of a text tells of its mentions, in a session that knows the nodes with blocks. -/
theorem tells_text (text : String) : ∃ s : TextSession, ∃ s' : TextSession,
    (∀ id, id ∈ s.declared ↔ id ∈ headed (mentions text)) ∧
      Tells IsPassage s (operationsOf text) s' (mentions text) := by
  have hpassages := Tells.all isJoinable_isPassage (P := fun _ => True) (fun _ _ _ h => h)
    (fun s passage _ => tells_passage s passage) (passages text)
    ((headingIds (passages text)).foldl Session.declaring .empty) trivial
  have htext := hpassages.append isJoinable_isPassage
    (.others _ fun _ hop => event?_closingOperations (linesOfText text) hop)
  rw [List.append_nil] at htext
  refine ⟨_, _, fun id => ?_, operationsOf_eq text ▸ htext⟩
  rw [Session.mem_declared_foldl, mentions, headed_passages]
  simp [Session.empty]

/-- **What a stream tells of nodes** is told at the mentions of the text, in their order. -/
theorem events_operationsOf (text : String) :
    (operationsOf text).filterMap Operation.event? = (markedMentions text).flatMap eventsAt := by
  obtain ⟨s, s', hknown, htells⟩ := tells_text text
  rw [htells.events, markedMentions, marked_congr hknown]

/-- **The placeholders of a stream** are the declarations of targets. -/
theorem placeholders_operationsOf (text : String) :
    (placeholders (operationsOf text)).map (fun p => (p.1, p.2.targetSurface)) =
      (markedMentions text).filterMap placeholderAt? := by
  obtain ⟨s, s', hknown, htells⟩ := tells_text text
  rw [htells.placeholders, markedMentions, marked_congr hknown]

end NoteGraph
