import NoteGraph.Proofs.Graph.Nodes
import NoteGraph.Proofs.Graph.OfText
import NoteGraph.Proofs.Net.Building
import NoteGraph.Proofs.Net.ShortRows

/-!
# The token net of a text

A text without morph headings makes no records of morphs, so no two of its records share an
identifier and every relation of it is an edge of its graph. So the arcs of its token net are
the relations between transitions and other nodes, and every weight of a transition is the sum
of the weights that the text gives, each once, in the order in which the table of the arcs takes
its entries. Where the table keeps their order, it is their order in the text.
-/

namespace NoteGraph

open NoteGraph.Language

/-! ### Texts without morphs -/

/-- The node blocks of a text. -/
def nodeBlocks (text : String) : List NodeBlock :=
  ((splitBlocks (cutDescription false (linesOfText text)).1).map Part.ofBlock).flatMap Part.blocks

/-- A record that is made under no named morph. -/
def Operation.IsUnscoped (op : Operation) : Prop := ∀ claimed ∈ op.claimed?, claimed.1 = none

theorem Operation.isUnscoped_of_claimed? {op : Operation} (h : op.claimed? = none) :
    op.IsUnscoped := by
  intro claimed hclaimed
  rw [h] at hclaimed
  cases hclaimed

theorem Operation.isUnscoped_of_eq {op : Operation} {content : Signature}
    (h : op.claimed? = some (none, content)) : op.IsUnscoped := by
  intro claimed hclaimed
  rw [h] at hclaimed
  rw [← Option.some.inj hclaimed]

theorem forall_mem_operationsOfAll {α : Type} {P : Operation → Prop}
    {step : TextSession → α → List Operation × TextSession} {as : List α}
    (h : ∀ a ∈ as, ∀ s, ∀ op ∈ (step s a).1, P op) :
    ∀ s, ∀ op ∈ (operationsOfAll step s as).1, P op := by
  induction as with
  | nil => simp [operationsOfAll]
  | cons a rest ih =>
    intro s op hop
    obtain ⟨ha, hrest⟩ := List.forall_mem_cons.mp h
    rcases List.mem_append.mp hop with hop | hop
    · exact ha s op hop
    · exact ih hrest (step s a).2 op hop

theorem isUnscoped_target (node surface : String) (s : TextSession) (raw : String) :
    ∀ op ∈ (targetOperations node none surface s raw).1, op.IsUnscoped := by
  unfold targetOperations
  generalize Target.ofRaw raw = target
  by_cases hempty : target.nodeId.isEmpty = true
  · simp [hempty]
  · have hrelation : ∀ (op : Operation) (record : RelationRecord),
        op.action = .addRelation record → record.morphId = none → op.IsUnscoped := by
      intro op record haction hmorph
      have hclaimed : op.claimed? = some (none, .relation record.name record.weight) := by
        simp [Operation.claimed?, haction, hmorph]
      exact Operation.isUnscoped_of_eq hclaimed
    rw [if_neg hempty]
    rcases s.declare target.nodeId with ⟨_ | _, next⟩
    · intro op hop
      rw [List.mem_singleton.mp hop]
      exact hrelation _ _ rfl rfl
    · intro op hop
      rcases List.mem_cons.mp hop with rfl | hop
      · exact Operation.isUnscoped_of_claimed? rfl
      · rw [List.mem_singleton.mp hop]
        exact hrelation _ _ rfl rfl

theorem isUnscoped_statement (node : String) (s : TextSession) (statement : Statement) :
    ∀ op ∈ (statementOperations node none s statement).1, op.IsUnscoped := by
  cases statement with
  | description text => exact List.forall_mem_singleton.mpr (Operation.isUnscoped_of_claimed? rfl)
  | «attribute» line => exact List.forall_mem_singleton.mpr (Operation.isUnscoped_of_eq rfl)
  | function name => exact List.forall_mem_singleton.mpr (Operation.isUnscoped_of_eq rfl)
  | relation surface targets =>
    exact forall_mem_operationsOfAll (fun raw _ s => isUnscoped_target node surface s raw) s

theorem isUnscoped_block {block : NodeBlock} (h : block.morphs = []) (s : TextSession) :
    ∀ op ∈ (blockOperations s block).1, op.IsUnscoped := by
  intro op hop
  simp only [blockOperations, h, operationsOfAll, List.append_nil] at hop
  rcases List.mem_cons.mp hop with rfl | hop
  · exact Operation.isUnscoped_of_claimed? rfl
  · exact forall_mem_operationsOfAll
      (fun statement _ s => isUnscoped_statement (headingOf block).nodeId s statement) _ op hop

theorem isUnscoped_items (root relation : String) (items : List MindmapItem) :
    ∀ (above : List (String × ℕ)) (s : TextSession),
      ∀ op ∈ (itemOperations root relation above s items).1, op.IsUnscoped := by
  induction items with
  | nil => simp [itemOperations]
  | cons item rest ih =>
    intro above s op hop
    rcases List.mem_cons.mp hop with rfl | hop
    · exact Operation.isUnscoped_of_claimed? rfl
    · rcases List.mem_cons.mp hop with rfl | hop
      · exact Operation.isUnscoped_of_eq rfl
      · exact ih _ _ op hop

theorem isUnscoped_mindmap (s : TextSession) (lines : List String) :
    ∀ op ∈ (mindmapOperations s lines).1, op.IsUnscoped := by
  cases lines with
  | nil => simp [mindmapOperations]
  | cons first rest =>
    rw [mindmapOperations]
    cases MindmapHeading.ofLine? first with
    | none => simp
    | some heading =>
      intro op hop
      rcases List.mem_cons.mp hop with rfl | hop
      · exact Operation.isUnscoped_of_claimed? rfl
      · exact isUnscoped_items _ _ _ _ _ op hop

/-- Without morph headings no record is made under a named morph. -/
theorem isUnscoped_operationsOf {text : String} (h : ∀ block ∈ nodeBlocks text, block.morphs = []) :
    ∀ op ∈ operationsOf text, op.IsUnscoped := by
  unfold operationsOf operationsIn
  by_cases hempty : text.isEmpty = true
  · simp [hempty]
  · rw [if_neg hempty]
    unfold nodeBlocks at h
    cases hcut : cutDescription false (linesOfText text) with
    | mk lines description =>
      rw [hcut] at h
      simp only [List.forall_mem_append]
      refine ⟨⟨forall_mem_operationsOfAll ?_ _, ?_⟩, ?_⟩
      · intro part hpart s
        cases part with
        | mindmap lines => exact isUnscoped_mindmap s lines
        | nodes blocks =>
          exact forall_mem_operationsOfAll (fun block hblock =>
            isUnscoped_block (h block (List.mem_flatMap.mpr ⟨_, hpart, hblock⟩))) s
      all_goals
        intro op hop
        obtain ⟨text, -, rfl⟩ := List.mem_map.mp hop
        exact Operation.isUnscoped_of_claimed? rfl

/-! ### Every relation is an edge -/

theorem Operation.edge?_eq (op : Operation) :
    op.edge? = op.relation?.map (Graph.edgeOf op.id) := by
  unfold Operation.edge? Operation.relation?
  cases op.action <;> rfl

theorem Operation.claimed?_of_relation? {op : Operation} {record : RelationRecord}
    (h : op.relation? = some record) :
    op.claimed? = some (record.morphId, .relation record.name record.weight) := by
  unfold relation? at h
  split at h
  · rename_i haction
    rw [claimed?, haction, ← Option.some.inj h]
  · cases h

/-- Records under no named morph have identifiers of their own. -/
theorem nodup_made_ids {α : Type} {key : α → String} {made? : Operation → Option α}
    (hkey : ∀ op, ∀ v ∈ made? op, key v = op.id)
    (hnone : ∀ op : Operation, op.claimed? = none → made? op = none)
    {ops : List Operation} (hapart : ops.Pairwise Operation.Apart)
    (hunscoped : ∀ op ∈ ops, op.IsUnscoped) : ((ops.filterMap made?).map key).Nodup := by
  have hclaimed : ∀ op ∈ ops, ∀ v ∈ made? op, ∃ content, op.claimed? = some (none, content) := by
    intro op hop v hv
    cases hclaim : op.claimed? with
    | none =>
      rw [hnone op hclaim] at hv
      cases hv
    | some claimed =>
      obtain ⟨morph, content⟩ := claimed
      obtain rfl : morph = none := hunscoped op hop _ hclaim
      exact ⟨content, rfl⟩
  rw [List.Nodup, List.pairwise_map, List.pairwise_filterMap]
  refine hapart.imp_of_mem fun {a b} ha hb hab v hv v' hv' hid => ?_
  obtain ⟨content, hca⟩ := hclaimed a ha v hv
  obtain ⟨content', hcb⟩ := hclaimed b hb v' hv'
  have hids : a.id = b.id := by rw [← hkey a v hv, ← hkey b v' hv', hid]
  exact (hab _ _ _ _ hca hcb hids).1 rfl

/-- Without morphs the edges of a graph are the relations of its stream. -/
theorem bare_edges_of_apart {ops : List Operation} (h : ∀ op ∈ ops, op.IsUnscoped)
    (hapart : ops.Pairwise Operation.Apart) :
    (Graph.ofOperations ops).edges.map Edge.bare = ops.filterMap Operation.edge? := by
  have hnodup := nodup_made_ids (fun _ => Operation.id_of_mem_edge?)
    (fun _ hnone => (Operation.makes_nothing hnone).1) hapart h
  rw [Graph.bare_edges_ofOperations, foldl_addFirst_of_nodup Edge.id [] hnodup]
  simp

/-! ### The weights that a text gives -/

/-- The positive weights of the relations of a stream that lead from a transition to a place
in one direction, in the order of the stream. -/
def relationWeights (ops : List Operation) (direction : Direction) (place t : String) :
    List Number :=
  (ops.filterMap Operation.relation?).filterMap fun r =>
    if r.name = direction.relation && r.target == place && r.source == t &&
        Number.lt 0 r.weight then some r.weight.toFloat
    else none

theorem Graph.IsNetOf.arcWeights_eq {ops : List Operation} {accounting : Bool} {tokens : Number}
    {net : Net Number} (h : (Graph.ofOperations ops).IsNetOf accounting tokens net)
    (hedges : (Graph.ofOperations ops).edges.map Edge.bare = ops.filterMap Operation.edge?)
    {t place : String} (ht : t ∈ net.transitionNames) (hplace : place ∉ net.transitionNames)
    (direction : Direction) :
    net.arcWeights direction place t = relationWeights ops direction place t := by
  let weight? (e : Edge) : Option Number :=
    if e.name = direction.relation && e.targetId == place && e.sourceId == t &&
        Number.lt 0 e.weight then some e.weight.toFloat
    else none
  rw [h.mem_transitionNames] at ht hplace
  calc net.arcWeights direction place t
      = (Graph.ofOperations ops).edges.filterMap weight? := by
        rw [Net.arcWeights, h.arcs, List.filterMap_map, Graph.arcEdges, Graph.stateEdges,
          List.filterMap_filter, List.filterMap_filter]
        refine List.filterMap_congr fun e _ => ?_
        rw [← ite_and, Function.comp_apply, ← ite_and]
        refine if_congr ?_ rfl rfl
        have hname := Direction.ofRelation?_eq_some_iff e.name direction
        simp only [Graph.makesArc, Bool.and_eq_true, decide_eq_true_eq, beq_iff_eq]
        constructor
        · rintro ⟨⟨⟨hstate, -⟩, -, hweight⟩, ⟨hdirection, htarget⟩, hsource⟩
          obtain ⟨d, hd⟩ := Option.isSome_iff_exists.mp hstate
          rw [Graph.arcOf, hd] at hdirection
          obtain rfl : d = direction := hdirection
          exact ⟨⟨⟨hname.mp hd, htarget⟩, hsource⟩, hweight⟩
        · rintro ⟨⟨⟨hnamed, rfl⟩, rfl⟩, hweight⟩
          have hd := hname.mpr hnamed
          have hdirection : (Graph.arcOf e).direction = direction := by
            rw [Graph.arcOf, hd]
            rfl
          have htarget := Bool.eq_false_of_not_eq_true hplace
          exact ⟨⟨⟨by rw [hd]; rfl, ht⟩, by rw [htarget]; rfl, hweight⟩, ⟨hdirection, rfl⟩, rfl⟩
    _ = ((Graph.ofOperations ops).edges.map Edge.bare).filterMap weight? := by
        rw [List.filterMap_map]
        rfl
    _ = relationWeights ops direction place t := by
        rw [hedges, relationWeights, List.filterMap_filterMap, List.filterMap_filterMap]
        refine List.filterMap_congr fun op _ => ?_
        rw [Operation.edge?_eq]
        cases op.relation? <;> rfl

theorem Emits.isCanonical {s s' : TextSession} {ops : List Operation} (h : Emits s ops s')
    (hs : s.IsSound Signature.IsCanonical) {op : Operation} (hop : op ∈ ops)
    {morph : Option String} {content : Signature} (hclaimed : op.claimed? = some (morph, content)) :
    content.IsCanonical := by
  obtain ⟨claim, hclaim, -, -, rfl⟩ := h.holds hs hop hclaimed
  exact (h.isSound hs).signatures claim hclaim

theorem Number.IsCanonical.isTooLarge_eq_false {n : Number} (h : n.IsCanonical) :
    n.isTooLarge = false := by
  obtain ⟨x, rfl⟩ := h
  by_cases hx : x.isFinite = true
  · exact Number.isTooLarge_eq_false (Number.isFinite_ofWhole hx)
  · have hnone : x.toInt? = none := by
      cases x with
      | finite => exact absurd rfl hx
      | infinite => rfl
      | undefined => rfl
    rw [ofWhole, hnone]
    rfl

/-- The weights that texts give are in reach of floating-point numbers. -/
theorem isTooLarge_weight {text : String} {e : Edge}
    (he : e ∈ (Graph.ofOperations (operationsOf text)).edges) : e.weight.isTooLarge = false := by
  have hbare := List.mem_map_of_mem (f := Edge.bare) he
  rw [Graph.bare_edges_ofOperations] at hbare
  obtain ⟨op, hop, hmade⟩ :=
    List.mem_filterMap.mp ((mem_foldl_addFirst Edge.id hbare).resolve_left List.not_mem_nil)
  rw [Operation.edge?_eq] at hmade
  obtain ⟨record, hrecord, hedge⟩ := Option.map_eq_some_iff.mp hmade
  have hweight : e.weight = record.weight := (congrArg Edge.weight hedge).symm
  have hcanonical : record.weight.IsCanonical :=
    (emits_operationsIn .empty text).isCanonical (Session.isSound_empty _) hop
      (Operation.claimed?_of_relation? hrecord)
  rw [hweight]
  exact hcanonical.isTooLarge_eq_false

/-- A token net follows a stream: its transitions are the nodes of their roles, its arcs are
the relations that lead from them to other nodes, and its places are where arcs lead. -/
structure Net.Follows [EntryOrder] (net : Net Number) (ops : List Operation) (tokens : Number) :
    Prop where
  transitions : net.transitionNames = ((Graph.ofOperations ops).nodes.filter fun n =>
    n.role = "Transition" ∨ n.role = "Transaction").map (·.id)
  /-- A summed weight is that of the relations, each once, and in the order of the stream where
  the table keeps the order of the entries of the cell. -/
  weights : ∀ t ∈ net.transitionNames, ∀ place ∉ net.transitionNames, ∀ direction,
    ∃ addends : List Number, addends.Perm (relationWeights ops direction place t) ∧
      (EntryOrder.KeepsOrderAt (net.cells direction) (net.cellAt direction place t) →
        addends = relationWeights ops direction place t) ∧
      (net.weights direction t).lookup place = Net.sum? addends
  nodup : net.placeNames.Nodup
  places : ∀ place, place ∈ net.placeNames ↔ place ∉ net.transitionNames ∧
    ∃ t ∈ net.transitionNames, ∃ direction, relationWeights ops direction place t ≠ []
  tokens : ∀ place ∈ net.places, place.tokens =
    if ∃ t ∈ net.transitionNames, relationWeights ops .input place.name t ≠ [] then
      tokens.toFloat
    else .float 0

/-- **From text to net**: the token net of a text without morph headings follows the stream of
the text, whatever finite number of tokens its places are seeded with. -/
theorem toNet_operationsOf [EntryOrder] {text : String}
    (hmorphs : ∀ block ∈ nodeBlocks text, block.morphs = [])
    {tokens : Number} (htokens : tokens.toBinary64.isFinite = true) :
    ∃ net, ((Graph.ofOperations (operationsOf text)).toNet false tokens).1 = .ok net ∧
      net.Follows (operationsOf text) tokens := by
  let g := Graph.ofOperations (operationsOf text)
  have hseed : ∀ id, (g.seed false tokens id).1.toBinary64.isFinite = true := by
    intro id
    simp only [Graph.seed, Bool.false_eq_true, if_false]
    split_ifs
    · exact htokens
    · rw [Number.toBinary64, Number.Binary64.zero_def, Number.Binary64.zero_eq]
      rfl
  obtain ⟨net, hnet⟩ := Graph.exists_toNet (Graph.nodup_map_id_nodes (operationsOf text))
    (fun e he => isTooLarge_weight (List.mem_filter.mp (List.mem_filter.mp he).1).1) hseed
  have h := Graph.isNetOf_of_toNet hnet
  have hweights : ∀ t ∈ net.transitionNames, ∀ place ∉ net.transitionNames, ∀ direction,
      net.arcWeights direction place t = relationWeights (operationsOf text) direction place t :=
    fun t ht place hplace => h.arcWeights_eq
      (bare_edges_of_apart (isUnscoped_operationsOf hmorphs) (pairwise_apart_operationsOf text))
      ht hplace
  refine ⟨net, hnet, ?_, ?_, h.nodup, ?_, ?_⟩
  · rw [h.transitionNames_eq, Graph.transitionNodes]
    simp [transitionRoles, transactionRole]
  · intro t ht place hplace direction
    rw [← hweights t ht place hplace direction]
    exact ⟨net.addends direction place t, net.addends_perm direction place t,
      Net.addends_eq,
      Net.lookup_weights h.nodup (fun a ha => (h.ends_of_mem_arcs ha).2.1) direction place t⟩
  · intro place
    constructor
    · intro hplace
      obtain ⟨a, ha, rfl⟩ := h.exists_arc hplace
      obtain ⟨ht, -, hnot⟩ := h.ends_of_mem_arcs ha
      refine ⟨hnot, a.transition, ht, a.direction, ?_⟩
      rw [← hweights _ ht _ hnot]
      exact Net.arcWeights_ne_nil_iff.mpr ⟨a, ha, rfl, rfl, rfl⟩
    · rintro ⟨hnot, t, ht, direction, hne⟩
      rw [← hweights t ht place hnot] at hne
      obtain ⟨a, ha, -, rfl, -⟩ := Net.arcWeights_ne_nil_iff.mp hne
      exact (h.ends_of_mem_arcs ha).2.1
  · intro place hplace
    have hmem : place.name ∈ net.placeNames := List.mem_map_of_mem hplace
    have hnot : place.name ∉ net.transitionNames := by
      obtain ⟨a, ha, heq⟩ := h.exists_arc hmem
      exact heq ▸ (h.ends_of_mem_arcs ha).2.2
    rw [h.tokens_eq hplace]
    refine if_congr ⟨?_, ?_⟩ rfl rfl
    · rintro ⟨a, ha, hinput, heq⟩
      have ht := (h.ends_of_mem_arcs ha).1
      refine ⟨a.transition, ht, ?_⟩
      rw [← hweights _ ht _ hnot]
      exact Net.arcWeights_ne_nil_iff.mpr ⟨a, ha, hinput, heq, rfl⟩
    · rintro ⟨t, ht, hne⟩
      rw [← hweights t ht _ hnot] at hne
      obtain ⟨a, ha, hinput, heq, -⟩ := Net.arcWeights_ne_nil_iff.mp hne
      exact ⟨a, ha, hinput, heq⟩

/-- A transition that is opened twice, with parallel arcs and a debit; its tables keep the order of
their entries. -/
theorem toNet_reopened :
    let text :=
      "# t [Transition]\n<has prior_state> 2 p; p;\n<has post_state> q;\n# t\n<debit> 3 q;"
    (∀ block ∈ nodeBlocks text, block.morphs = []) ∧
      (Number.int 5).toBinary64.isFinite = true ∧
      relationWeights (operationsOf text) .input "p" "t" =
        [(Number.int 2).toFloat, (Number.int 1).toFloat] ∧
      relationWeights (operationsOf text) .output "q" "t" =
        [(Number.int 1).toFloat, (Number.int 3).toFloat] ∧
      ∃ net, ((Graph.ofOperations (operationsOf text)).toNet false (.int 5)).1 = .ok net ∧
        net.Follows (operationsOf text) (.int 5) ∧
        ∀ direction, EntryOrder.KeepsOrder (net.cells direction) := by
  intro text
  have hmorphs : ∀ block ∈ nodeBlocks text, block.morphs = [] := by decide +kernel
  have htokens : (Number.int 5).toBinary64.isFinite = true := by decide +kernel
  obtain ⟨net, hnet, hfollows⟩ := toNet_operationsOf hmorphs htokens
  have hcells : ((Graph.ofOperations (operationsOf text)).toNet false (.int 5)).1.map
      (fun net => (net.cells .input, net.cells .output)) =
        .ok ([(0, 0), (0, 0)], [(1, 0), (1, 0)]) := by
    decide +kernel
  rw [hnet] at hcells
  obtain ⟨hinputs, houtputs⟩ := Prod.mk.inj (Except.ok.inj hcells)
  have hshort : ∀ direction, (net.cells direction).length ≤ 16 := by
    intro direction
    cases direction with
    | input => exact hinputs ▸ by decide
    | output => exact houtputs ▸ by decide
  refine ⟨hmorphs, htokens, ?_, ?_, net, hnet, hfollows, fun direction cell _ => ?_⟩
  · decide +kernel
  · decide +kernel
  · exact keepsOrderAt_rowOrder (List.countP_le_length.trans (hshort direction))

/-- A transition with seventeen arcs, three of them from one place. -/
def crowdedText : String :=
  "# t [Transition]\n<has prior_state> " ++
    "0.1 p; 0.2 p; a; 0.3 p; b; c; d; e; f; g; h; i; j; k; l; m; n;"

/-- Its row of the table is sorted, and the first of the three weights is added last. -/
theorem weights_crowdedText :
    (∀ block ∈ nodeBlocks crowdedText, block.morphs = []) ∧
      ∃ net, ((Graph.ofOperations (operationsOf crowdedText)).toNet false (.int 1)).1 = .ok net ∧
        "t" ∈ net.transitionNames ∧ "p" ∉ net.transitionNames ∧
        (net.weights .input "t").lookup "p" ≠
          Net.sum? (relationWeights (operationsOf crowdedText) .input "p" "t") := by
  let names := ["p", "a", "b", "c", "d", "e", "f", "g", "h", "i", "j", "k", "l", "m", "n"]
  let arcs := (Graph.ofOperations (operationsOf crowdedText)).arcEdges.map Graph.arcOf
  let net : Net Number :=
    { places := names.map fun name => ⟨name, (Number.int 1).toFloat, some "class"⟩
      transitions := [⟨"t", some "Transition"⟩]
      arcs }
  refine ⟨by decide +kernel, net, ?_, by decide, by decide, ?_⟩
  · decide +kernel
  · decide +kernel

end NoteGraph
