import NoteGraph.Proofs.Graph.Morphs
import NoteGraph.Proofs.Operation.Mentions

/-!
# The scopes of records

A record is made of a node, under a morph of it or under none, and it says so itself. Where it
stands in the stream says the same: below the declaration of its morph, or below the heading of
its node if it has no morph, and up to it nothing is of another scope (`InScope`). Placeholders
stand between, and the same node may have several headings. The morphs that texts declare one
after another in a session are told apart by their identifiers.
-/

namespace NoteGraph

open NoteGraph.Language

/-- The node of a record and the morph that the record is made under. -/
def Operation.scope? (op : Operation) : Option (String × Option String) :=
  match op.action with
  | .addRelation record => some (record.source, record.morphId)
  | .addAttribute record => some (record.source, record.morphId)
  | .applyFunction record => some (record.source, record.morphId)
  | _ => none

/-! ### Openings -/

/-- The operation that opens a scope: the declaration of the morph, or if there is none the
declaration of the node in a heading. -/
def Opens (blocks : List NodeBlock) (op : Operation) (node : String) : Option String → Prop
  | some morph => ∃ name, op.morph? = some ⟨node, morph, name⟩
  | none => ∃ block ∈ blocks, (headingOf block).nodeId = node ∧
      op = (Mention.heading (headingOf block)).declaration

theorem Opens.scope?_eq_none {blocks : List NodeBlock} {op : Operation} {node : String} :
    ∀ {morph : Option String}, Opens blocks op node morph → op.scope? = none
  | some morph, ⟨name, hmorph⟩ => by
    unfold Operation.morph? at hmorph
    unfold Operation.scope?
    split at hmorph
    · rename_i haction
      rw [haction]
    · cases hmorph
  | none, ⟨block, _, _, heq⟩ => by
    rw [heq]
    rfl

/-- An operation that may stand below the opening of a scope: it declares no morph, and a record
is of the scope. -/
structure Operation.IsUnder (node : String) (morph : Option String) (op : Operation) : Prop where
  noMorph : op.morph? = none
  inScope : ∀ scope ∈ op.scope?, scope = (node, morph)

/-- A record under no morph that is not of a node block, or no record at all. -/
def Operation.IsLoose (op : Operation) : Prop :=
  ∀ scope ∈ op.scope?, scope.2 = none ∧ op.origin ≠ textOrigin

/-- Every record under a morph or of a node block stands below the opening of its scope. -/
def InScope (blocks : List NodeBlock) (ops : List Operation) : Prop :=
  ∀ before op after, ops = before ++ op :: after → ∀ node morph, op.scope? = some (node, morph) →
    morph.isSome ∨ op.origin = textOrigin →
      ∃ front opening between, before = front ++ opening :: between ∧
        Opens blocks opening node morph ∧ ∀ o ∈ between, o.IsUnder node morph

namespace InScope

variable {blocks : List NodeBlock} {ops more : List Operation}

theorem loose (h : ∀ op ∈ ops, op.IsLoose) : InScope blocks ops := by
  rintro before op after rfl node morph hscope hmade
  obtain ⟨rfl, horigin⟩ := h op (by simp) (node, morph) hscope
  simp [horigin] at hmade

/-- What follows the opening of a scope and is under it is in scope. -/
theorem below {opening : Operation} {under : List Operation} {node : String}
    {morph : Option String} (hopens : Opens blocks opening node morph)
    (hunder : ∀ op ∈ under, op.IsUnder node morph) : InScope blocks (opening :: under) := by
  intro before op after hsplit node' morph' hscope _
  cases before with
  | nil =>
    obtain ⟨rfl, -⟩ := List.cons.inj hsplit
    rw [hopens.scope?_eq_none] at hscope
    cases hscope
  | cons first between =>
    obtain ⟨rfl, rfl⟩ := List.cons.inj hsplit
    obtain ⟨rfl, rfl⟩ := Prod.mk.inj ((hunder op (by simp)).inScope _ hscope)
    exact ⟨[], opening, between, rfl, hopens, fun o ho => hunder o (List.mem_append_left _ ho)⟩

/-- Scopes do not reach over the end of a stretch. -/
theorem append (h : InScope blocks ops) (hmore : InScope blocks more) :
    InScope blocks (ops ++ more) := by
  intro before op after hsplit node morph hscope hmade
  rcases List.append_eq_append_iff.mp hsplit with ⟨rest, rfl, hrest⟩ | ⟨rest, hops, hrest⟩
  · obtain ⟨front, opening, between, rfl, hopens⟩ :=
      hmore rest op after hrest node morph hscope hmade
    exact ⟨ops ++ front, opening, between, by simp, hopens⟩
  · cases rest with
    | nil =>
      -- the record is the first one of the second stretch, where nothing opens its scope
      obtain ⟨front, opening, between, hnil, -⟩ :=
        hmore [] op after hrest.symm node morph hscope hmade
      simp at hnil
    | cons first rest =>
      obtain ⟨rfl, -⟩ := List.cons.inj hrest
      exact h before op rest hops node morph hscope hmade

theorem all {α : Type} {step : TextSession → α → List Operation × TextSession} {as : List α}
    (h : ∀ a ∈ as, ∀ s, InScope blocks (step s a).1) :
    ∀ s, InScope blocks (operationsOfAll step s as).1 := by
  induction as with
  | nil => exact fun _ => loose (List.forall_mem_nil _)
  | cons a rest ih =>
    obtain ⟨ha, hrest⟩ := List.forall_mem_cons.mp h
    exact fun s => (ha s).append (ih hrest (step s a).2)

end InScope

/-! ### Sections -/

theorem isUnder_target (node : String) (morph : Option String) (surface : String)
    (s : TextSession) (raw : String) :
    ∀ op ∈ (targetOperations node morph surface s raw).1, op.IsUnder node morph := by
  have hrecord {op : Operation} {record : RelationRecord}
      (haction : op.action = .addRelation record) (hsource : record.source = node)
      (hmorph : record.morphId = morph) : op.IsUnder node morph := by
    refine ⟨Operation.morph?_eq_none fun _ h => ?_, fun scope hscope => ?_⟩
    · cases haction.symm.trans h
    · rw [Operation.scope?, haction] at hscope
      rw [← hsource, ← hmorph]
      exact (Option.some.inj hscope).symm
  unfold targetOperations
  generalize Target.ofRaw raw = target
  by_cases hempty : target.nodeId.isEmpty = true
  · simp [hempty]
  · rw [if_neg hempty]
    rcases s.declare target.nodeId with ⟨_ | _, next⟩
    · exact List.forall_mem_singleton.mpr (hrecord rfl rfl rfl)
    · exact List.forall_mem_cons.mpr
        ⟨⟨rfl, fun _ h => nomatch h⟩, List.forall_mem_singleton.mpr (hrecord rfl rfl rfl)⟩

theorem isUnder_statement (node : String) (morph : Option String) (s : TextSession)
    (statement : Statement) :
    ∀ op ∈ (statementOperations node morph s statement).1, op.IsUnder node morph := by
  cases statement with
  | description text => exact List.forall_mem_singleton.mpr ⟨rfl, fun _ h => nomatch h⟩
  | «attribute» line =>
    exact List.forall_mem_singleton.mpr ⟨rfl, fun _ h => (Option.some.inj h).symm⟩
  | function name =>
    exact List.forall_mem_singleton.mpr ⟨rfl, fun _ h => (Option.some.inj h).symm⟩
  | relation surface targets =>
    exact forall_mem_operationsOfAll (fun raw _ s => isUnder_target node morph surface s raw) s

theorem isUnder_section (node : String) (morph : Option String) (s : TextSession)
    (lines : List String) :
    ∀ op ∈ (sectionOperations node morph s lines).1, op.IsUnder node morph :=
  forall_mem_operationsOfAll (fun statement _ s => isUnder_statement node morph s statement) s

/-! ### Passages -/

theorem inScope_morph (blocks : List NodeBlock) (node : String) (s : TextSession)
    (part : MorphSection) : InScope blocks (morphOperations node s part).1 :=
  have hopens : Opens blocks _ node (some _) := ⟨part.name, rfl⟩
  .below hopens (isUnder_section node _ _ part.lines)

theorem inScope_block {blocks : List NodeBlock} {block : NodeBlock} (hblock : block ∈ blocks)
    (s : TextSession) : InScope blocks (blockOperations s block).1 :=
  have hopens : Opens blocks _ (headingOf block).nodeId none := ⟨block, hblock, rfl, rfl⟩
  .append (.below hopens (isUnder_section _ none _ block.body))
    (.all (fun part _ s => inScope_morph blocks _ s part) _)

theorem isLoose_of_scope? {op : Operation} (h : op.scope? = none) : op.IsLoose := by
  intro scope hscope
  rw [h] at hscope
  cases hscope

theorem isLoose_items (root relation : String) (items : List MindmapItem) :
    ∀ (above : List (String × ℕ)) (s : TextSession),
      ∀ op ∈ (itemOperations root relation above s items).1, op.IsLoose := by
  induction items with
  | nil => exact fun _ _ => List.forall_mem_nil _
  | cons item rest ih =>
    intro above s op hop
    rcases List.mem_cons.mp hop with rfl | hop
    · exact isLoose_of_scope? rfl
    · rcases List.mem_cons.mp hop with rfl | hop
      · intro scope hscope
        have horigin : mindmapOrigin ≠ textOrigin := by decide
        rw [← Option.some.inj hscope]
        exact ⟨rfl, horigin⟩
      · exact ih _ _ op hop

theorem isLoose_mindmap (s : TextSession) (lines : List String) :
    ∀ op ∈ (mindmapOperations s lines).1, op.IsLoose := by
  cases lines with
  | nil => exact List.forall_mem_nil _
  | cons first rest =>
    rw [mindmapOperations]
    cases MindmapHeading.ofLine? first with
    | none => exact List.forall_mem_nil _
    | some heading =>
      exact List.forall_mem_cons.mpr ⟨isLoose_of_scope? rfl, isLoose_items _ _ _ _ _⟩

theorem isLoose_closing (lines : List String) : ∀ op ∈ closingOperations lines, op.IsLoose := by
  intro op hop
  rcases List.mem_append.mp hop with hop | hop
  all_goals
    obtain ⟨text, -, rfl⟩ := List.mem_map.mp hop
    exact isLoose_of_scope? rfl

/-! ### Texts -/

/-- Records are in scope in a text, whatever was compiled before it. -/
theorem inScope_operationsIn (s : TextSession) (text : String) :
    InScope (nodeBlocks text) (operationsIn s text).1 := by
  rw [operationsIn_eq, operationsOfLines_eq]
  refine .append (.all (fun passage hpassage s => ?_) _) (.loose (isLoose_closing _))
  cases passage with
  | mindmap lines => exact .loose (isLoose_mindmap s lines)
  | node block => exact inScope_block (node_mem_iff.mp hpassage) s

/-- The texts of a session, each with its stream. -/
def streamsIn (s : TextSession) : List String → List (String × List Operation)
  | [] => []
  | text :: rest => (text, (operationsIn s text).1) :: streamsIn (operationsIn s text).2 rest

theorem flatMap_streamsIn (texts : List String) : ∀ s : TextSession,
    (streamsIn s texts).flatMap Prod.snd = (operationsOfAll operationsIn s texts).1 := by
  induction texts with
  | nil => exact fun _ => rfl
  | cons text rest ih =>
    intro s
    rw [streamsIn, List.flatMap_cons, ih]
    rfl

/-- Streams keep their scopes: the morphs that they declare are told apart, and the records of
each text are in scope. -/
structure KeepScopes (streams : List (String × List Operation)) : Prop where
  morphs : (((streams.flatMap Prod.snd).filterMap Operation.morph?).map (·.morphId)).Nodup
  records : ∀ stream ∈ streams, InScope (nodeBlocks stream.1) stream.2

/-- **The scopes of records**: the streams of texts that are compiled one after another in a
session keep their scopes. -/
theorem keepScopes_streamsIn (s : TextSession) (texts : List String) :
    KeepScopes (streamsIn s texts) := by
  refine ⟨?_, ?_⟩
  · rw [flatMap_streamsIn]
    exact (IsEmission.all emits_operationsIn s texts).numbersOn.nodup
  · induction texts generalizing s with
    | nil => exact List.forall_mem_nil _
    | cons text rest ih =>
      exact List.forall_mem_cons.mpr ⟨inScope_operationsIn s text, ih (operationsIn s text).2⟩

end NoteGraph
