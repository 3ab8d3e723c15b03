import NoteGraph.Operation.OfText
import NoteGraph.Proofs.Operation.Reference
import NoteGraph.Proofs.Operation.Session

/-!
# Streams refer to what they declare

A session knows nodes: those of the headings of a text before any operation of the text, and
those of placeholders and mindmaps as they come. Whatever it newly knows the stream declares,
now or later in the same text, and every reference of the stream is to a node that the session
knows, or to a morph that was declared just before (`Grounded`). So in a whole session of texts
every reference resolves.
-/

namespace NoteGraph

open NoteGraph.Language

/-! ### Known references -/

/-- A reference to a known node, a known morph or the field that can be set. -/
def Reference.Known (nodes : List String) (morphs : List (String × String)) : Reference → Prop
  | node id | target id => id ∈ nodes
  | morph nodeId id => (nodeId, id) ∈ morphs
  | field name => name = "description"

theorem Reference.Known.mono {nodes nodes' : List String} {morphs morphs' : List (String × String)}
    (hnodes : nodes ⊆ nodes') (hmorphs : morphs ⊆ morphs') :
    ∀ {ref : Reference}, ref.Known nodes morphs → ref.Known nodes' morphs'
  | .node _, h | .target _, h => hnodes h
  | .morph _ _, h => hmorphs h
  | .field _, h => h

/-! ### Sessions and the nodes they know -/

namespace Session

variable {σ : Type} (s : Session σ) (nodeId : String)

theorem declared_declaring : (s.declaring nodeId).declared =
    if nodeId ∈ s.declared then s.declared else s.declared ++ [nodeId] := by
  unfold declaring declare
  by_cases h : nodeId ∈ s.declared
  · rw [if_pos (by simpa using h), if_pos h]
  · rw [if_neg (by simpa using h), if_neg h]

theorem mem_declared_declaring {id : String} :
    id ∈ (s.declaring nodeId).declared ↔ id ∈ s.declared ∨ id = nodeId := by
  rw [declared_declaring]
  split_ifs with h
  · refine ⟨Or.inl, ?_⟩
    rintro (hid | rfl)
    · exact hid
    · exact h
  · simp

theorem mem_declared_foldl {id : String} (nodeIds : List String) :
    ∀ s : Session σ, id ∈ (nodeIds.foldl declaring s).declared ↔
      id ∈ s.declared ∨ id ∈ nodeIds := by
  induction nodeIds with
  | nil => simp
  | cons nodeId rest ih =>
    intro s
    rw [List.foldl_cons, ih, mem_declared_declaring, List.mem_cons, or_assoc]

/-- A session that is not told anything new stays as it is. -/
theorem declare_cases : (s.declare nodeId = (false, s) ∧ nodeId ∈ s.declared) ∨
    s.declare nodeId = (true, s.declaring nodeId) := by
  unfold declaring declare
  by_cases h : nodeId ∈ s.declared
  · rw [if_pos (by simpa using h)]
    exact Or.inl ⟨rfl, h⟩
  · rw [if_neg (by simpa using h)]
    exact Or.inr rfl

end Session

/-! ### Grounded stretches -/

/-- A stretch of a stream under some known morphs, during which one session becomes another:
the session forgets no node, the stretch declares what the session newly knows, and it refers
only to nodes that the session knows in the end and to morphs that are known or declared in
the stretch. -/
structure Grounded (known : List (String × String)) (s : TextSession) (ops : List Operation)
    (s' : TextSession) : Prop where
  keeps : s.declared ⊆ s'.declared
  declares : s'.declared ⊆ s.declared ++ nodeIds ops
  refers : ∀ op ∈ ops, ∀ ref ∈ op.references, ref.Known s'.declared (known ++ morphKeys ops)

namespace Grounded

variable {known : List (String × String)} {s s' s'' : TextSession} {ops more : List Operation}

theorem nil (s : TextSession) : Grounded known s [] s :=
  ⟨List.Subset.refl _, List.subset_append_left _ _, fun _ h => nomatch h⟩

/-- The morphs of a stretch are known in the next one. -/
theorem appendUnder (h : Grounded known s ops s')
    (hmore : Grounded (known ++ morphKeys ops) s' more s'') :
    Grounded known s (ops ++ more) s'' := by
  refine ⟨List.Subset.trans h.keeps hmore.keeps, ?_, ?_⟩
  · intro id hid
    rw [nodeIds_append, ← List.append_assoc]
    rcases List.mem_append.mp (hmore.declares hid) with hid | hid
    · exact List.mem_append_left _ (h.declares hid)
    · exact List.mem_append_right _ hid
  · rw [morphKeys_append, ← List.append_assoc]
    intro op hop ref href
    rcases List.mem_append.mp hop with hop | hop
    · exact (h.refers op hop ref href).mono hmore.keeps (List.subset_append_left _ _)
    · exact hmore.refers op hop ref href

theorem weaken (h : Grounded known s ops s') {known' : List (String × String)}
    (hsub : known ⊆ known') : Grounded known' s ops s' :=
  ⟨h.keeps, h.declares, fun op hop ref href => (h.refers op hop ref href).mono
    (List.Subset.refl _) (List.append_subset.mpr
      ⟨List.Subset.trans hsub (List.subset_append_left _ _), List.subset_append_right _ _⟩)⟩

theorem append (h : Grounded known s ops s') (hmore : Grounded known s' more s'') :
    Grounded known s (ops ++ more) s'' :=
  h.appendUnder (hmore.weaken (List.subset_append_left _ _))

/-- An operation that tells the session of no node. -/
theorem said (s s' : TextSession) {op : Operation} (hdeclared : s'.declared = s.declared)
    (hrefs : ∀ ref ∈ op.references, ref.Known s.declared known) : Grounded known s [op] s' := by
  refine ⟨hdeclared ▸ List.Subset.refl _, hdeclared ▸ List.subset_append_left _ _, ?_⟩
  intro op' hop ref href
  obtain rfl := List.mem_singleton.mp hop
  rw [hdeclared]
  exact (hrefs ref href).mono (List.Subset.refl _) (List.subset_append_left _ _)

/-- The declaration of a node. -/
theorem node (s : TextSession) {op : Operation} (hnode : op.node?.isSome) :
    Grounded known s [op] (s.declaring op.id) := by
  obtain ⟨record, hrecord⟩ := Option.isSome_iff_exists.mp hnode
  have hids : nodeIds [op] = [op.id] := by simp [nodeIds, Operation.declaration?, hrecord]
  have hrefs : op.references = [] := by
    unfold Operation.node? at hrecord
    unfold Operation.references
    cases hop : op.action <;> rw [hop] at hrecord <;> first | rfl | cases hrecord
  refine ⟨fun id hid => (s.mem_declared_declaring _).mpr (Or.inl hid), fun id hid => ?_, ?_⟩
  · rw [hids]
    rcases (s.mem_declared_declaring _).mp hid with hid | rfl
    · exact List.mem_append_left _ hid
    · exact List.mem_append_right _ (List.mem_singleton_self _)
  · intro op' hop ref href
    rw [List.mem_singleton.mp hop, hrefs] at href
    cases href

theorem cons {op : Operation} (h : Grounded known s [op] s') (hmore : Grounded known s' more s'') :
    Grounded known s (op :: more) s'' :=
  h.append hmore

/-- A step that is grounded while something holds of the session is so many times over, if
that goes on to hold. -/
theorem all {α : Type} {step : TextSession → α → List Operation × TextSession}
    {P : TextSession → Prop} (hP : ∀ s s' : TextSession, s.declared ⊆ s'.declared → P s → P s')
    (hstep : ∀ s a, P s → Grounded known s (step s a).1 (step s a).2) (as : List α) :
    ∀ s, P s → Grounded known s (operationsOfAll step s as).1 (operationsOfAll step s as).2 := by
  induction as with
  | nil => exact fun s _ => nil s
  | cons a rest ih =>
    intro s hs
    have h := hstep s a hs
    exact h.append (ih (step s a).2 (hP s _ h.keeps hs))

theorem always {α : Type} {step : TextSession → α → List Operation × TextSession}
    (hstep : ∀ s a, Grounded known s (step s a).1 (step s a).2) (as : List α) (s : TextSession) :
    Grounded known s (operationsOfAll step s as).1 (operationsOfAll step s as).2 :=
  all (P := fun _ => True) (fun _ _ _ h => h) (fun s a _ => hstep s a) as s trivial

end Grounded

/-! ### Sections -/

/-- A record is made of a known node, under no morph of it or a known one. -/
def KnownScope (known : List (String × String)) (node : String) (morph : Option String)
    (s : TextSession) : Prop :=
  ∀ ref ∈ recordReferences node morph, ref.Known s.declared known

theorem KnownScope.mono {known : List (String × String)} {node : String} {morph : Option String}
    (s s' : TextSession) (hsub : s.declared ⊆ s'.declared) (h : KnownScope known node morph s) :
    KnownScope known node morph s' :=
  fun ref href => (h ref href).mono hsub (List.Subset.refl _)

section Section

variable {known : List (String × String)} {node : String} {morph : Option String}

theorem grounded_target (surface : String) (s : TextSession) (raw : String)
    (hs : KnownScope known node morph s) :
    Grounded known s (targetOperations node morph surface s raw).1
      (targetOperations node morph surface s raw).2 := by
  unfold targetOperations
  generalize Target.ofRaw raw = target
  by_cases hempty : target.nodeId.isEmpty = true
  · rw [if_pos hempty]
    exact .nil s
  · rw [if_neg hempty]
    -- the relation follows when its target is known, and its source is known throughout
    have hrelation : ∀ next : TextSession, s.declared ⊆ next.declared →
        target.nodeId ∈ next.declared → ∀ (op : Operation) (baseId : String)
          (signature : Signature) (record : RelationRecord), op.action = .addRelation record →
          record.source = node → record.target = target.nodeId → record.morphId = morph →
          Grounded known next [op] (next.claim baseId morph signature).2 := by
      intro next hsub htarget op baseId signature record hop hsource hto hmorph
      refine .said _ _ rfl fun ref href => ?_
      rw [Operation.references, hop] at href
      rcases List.mem_cons.mp href with rfl | href
      · exact hto ▸ htarget
      · rw [hsource, hmorph] at href
        exact hs.mono s next hsub ref href
    rcases s.declare_cases target.nodeId with ⟨hdeclare, hknown⟩ | hdeclare
    · rw [hdeclare]
      exact hrelation s (List.Subset.refl _) hknown _ _ _ _ rfl rfl rfl rfl
    · rw [hdeclare]
      have hmem := fun id => @Session.mem_declared_declaring _ s target.nodeId id
      refine Grounded.cons (.node s rfl) (hrelation _ (fun id hid => (hmem id).mpr (Or.inl hid))
        ((hmem _).mpr (Or.inr rfl)) _ _ _ _ rfl rfl rfl rfl)

theorem grounded_statement (s : TextSession) (statement : Statement)
    (hs : KnownScope known node morph s) :
    Grounded known s (statementOperations node morph s statement).1
      (statementOperations node morph s statement).2 := by
  cases statement with
  | description text =>
    refine .said _ _ rfl fun ref href => ?_
    rcases List.mem_cons.mp href with rfl | href
    · exact hs _ List.mem_cons_self
    · rw [List.mem_singleton.mp href]
      rfl
  | «attribute» line => exact .said _ _ rfl hs
  | function name => exact .said _ _ rfl hs
  | relation surface targets =>
    exact Grounded.all KnownScope.mono (fun s raw => grounded_target surface s raw) targets s hs

theorem grounded_section (s : TextSession) (lines : List String)
    (hs : KnownScope known node morph s) :
    Grounded known s (sectionOperations node morph s lines).1
      (sectionOperations node morph s lines).2 :=
  Grounded.all KnownScope.mono grounded_statement (statements false lines) s hs

theorem grounded_morph (s : TextSession) (part : MorphSection) (hs : node ∈ s.declared) :
    Grounded known s (morphOperations node s part).1 (morphOperations node s part).2 := by
  refine Grounded.appendUnder (.said s s.nextMorph.2 rfl ?_) (grounded_section _ part.lines ?_)
  · intro ref href
    rw [List.mem_singleton.mp href]
    exact hs
  · intro ref href
    rcases List.mem_cons.mp href with rfl | href
    · exact hs
    · rw [List.mem_singleton.mp href]
      exact List.mem_append_right _ (List.mem_singleton_self _)

end Section

theorem grounded_block (s : TextSession) (block : NodeBlock) :
    Grounded [] s (blockOperations s block).1 (blockOperations s block).2 := by
  let id := (headingOf block).nodeId
  have hnode : id ∈ (s.declaring id).declared := (s.mem_declared_declaring id).mpr (Or.inr rfl)
  have hbody : Grounded [] (s.declaring id)
      (sectionOperations id none (s.declaring id) block.body).1
      (sectionOperations id none (s.declaring id) block.body).2 := by
    refine grounded_section _ block.body fun ref href => ?_
    rw [List.mem_singleton.mp href]
    exact hnode
  refine (Grounded.cons (.node s rfl) hbody).append ?_
  exact Grounded.all (P := fun s => id ∈ s.declared) (fun _ _ hsub hs => hsub hs)
    grounded_morph block.morphs _ (hbody.keeps hnode)

/-! ### Mindmaps -/

theorem parentOf_mem (root : String) (above : List (String × ℕ)) (indent : ℕ) :
    ((parentOf root above indent).1 = root ∨
        (parentOf root above indent).1 ∈ above.map Prod.fst) ∧
      (parentOf root above indent).2 ⊆ above := by
  have hsub : (parentOf root above indent).2 ⊆ above := (List.dropWhile_suffix _).subset
  have hfirst : (parentOf root above indent).1 =
      ((parentOf root above indent).2.head?.map (·.1)).getD root := rfl
  refine ⟨?_, hsub⟩
  rw [hfirst]
  cases hhead : (parentOf root above indent).2 with
  | nil => exact Or.inl rfl
  | cons first rest =>
    exact Or.inr (List.mem_map_of_mem (hsub (hhead ▸ List.mem_cons_self)))

theorem grounded_items (root relation : String) (items : List MindmapItem) :
    ∀ (above : List (String × ℕ)) (s : TextSession), root ∈ s.declared →
      above.map Prod.fst ⊆ s.declared →
        Grounded [] s (itemOperations root relation above s items).1
          (itemOperations root relation above s items).2 := by
  induction items with
  | nil => exact fun _ s _ _ => .nil s
  | cons item rest ih =>
    intro above s hroot habove
    obtain ⟨hparent, hsub⟩ := parentOf_mem root above item.indent
    have hkeep : s.declared ⊆ (s.declaring (cleanName item.name)).declared :=
      fun id hid => (s.mem_declared_declaring _).mpr (Or.inl hid)
    have hitem : cleanName item.name ∈ (s.declaring (cleanName item.name)).declared :=
      (s.mem_declared_declaring _).mpr (Or.inr rfl)
    have hknown : (parentOf root above item.indent).1 ∈ s.declared := by
      rcases hparent with heq | hmem
      · rw [heq]
        exact hroot
      · exact habove hmem
    refine Grounded.cons (.node s rfl) (Grounded.cons
      (.said _ ((s.declaring (cleanName item.name)).claim _ none _).2 rfl ?_)
      (ih _ _ (hkeep hroot) ?_))
    · intro ref href
      rcases List.mem_cons.mp href with rfl | href
      · exact hitem
      · rw [List.mem_singleton.mp href]
        exact hkeep hknown
    · intro id hid
      rcases List.mem_cons.mp hid with rfl | hid
      · exact hitem
      · obtain ⟨a, ha, rfl⟩ := List.mem_map.mp hid
        exact hkeep (habove (List.mem_map_of_mem (hsub ha)))

theorem grounded_mindmap (s : TextSession) (lines : List String) :
    Grounded [] s (mindmapOperations s lines).1 (mindmapOperations s lines).2 := by
  cases lines with
  | nil => exact .nil s
  | cons first rest =>
    rw [mindmapOperations]
    cases MindmapHeading.ofLine? first with
    | none => exact .nil s
    | some heading =>
      refine Grounded.cons (.node s rfl) (grounded_items _ _ _ [] _ ?_ (List.nil_subset _))
      exact (s.mem_declared_declaring _).mpr (Or.inr rfl)

theorem grounded_part (s : TextSession) (part : Part) :
    Grounded [] s (partOperations s part).1 (partOperations s part).2 := by
  cases part with
  | mindmap lines => exact grounded_mindmap s lines
  | nodes blocks =>
    exact Grounded.always grounded_block blocks s

/-! ### Texts -/

theorem exists_subset_operationsOfAll {α : Type}
    (step : TextSession → α → List Operation × TextSession) {a : α} {as : List α} (ha : a ∈ as) :
    ∀ s, ∃ s', (step s' a).1 ⊆ (operationsOfAll step s as).1 := by
  induction as with
  | nil => cases ha
  | cons b rest ih =>
    intro s
    rcases List.mem_cons.mp ha with rfl | ha
    · exact ⟨s, List.subset_append_left _ _⟩
    · obtain ⟨s', hsub⟩ := ih ha (step s b).2
      exact ⟨s', List.Subset.trans hsub (List.subset_append_right _ _)⟩

/-- The node of a heading is declared by the operations of its part. -/
theorem heading_mem_nodeIds {parts : List Part} {block : NodeBlock}
    (hblock : block ∈ parts.flatMap Part.blocks) (s : TextSession) :
    (headingOf block).nodeId ∈ nodeIds (operationsOfAll partOperations s parts).1 := by
  obtain ⟨part, hpart, hmem⟩ := List.mem_flatMap.mp hblock
  obtain ⟨s', hsub⟩ := exists_subset_operationsOfAll partOperations hpart s
  cases part with
  | mindmap lines => cases hmem
  | nodes blocks =>
    obtain ⟨s'', hsub'⟩ := exists_subset_operationsOfAll blockOperations hmem s'
    have hfirst := hsub (hsub' (List.mem_cons_self (l := _)))
    rw [nodeIds]
    exact List.mem_map.mpr ⟨_, List.mem_filterMap.mpr ⟨_, hfirst, rfl⟩, rfl⟩

/-- Operations that neither declare nor refer to anything may follow. -/
theorem Grounded.appendPlain {known : List (String × String)} {s s' : TextSession}
    {ops more : List Operation} (h : Grounded known s ops s')
    (hrefs : ∀ op ∈ more, op.references = []) : Grounded known s (ops ++ more) s' := by
  refine h.append ⟨List.Subset.refl _, List.subset_append_left _ _, ?_⟩
  intro op hop ref href
  rw [hrefs op hop] at href
  cases href

theorem grounded_text (s : TextSession) (text : String) :
    Grounded [] s (operationsIn s text).1 (operationsIn s text).2 := by
  unfold operationsIn
  by_cases hempty : text.isEmpty = true
  · rw [if_pos hempty]
    exact .nil s
  · rw [if_neg hempty]
    cases cutDescription false (linesOfText text) with
    | mk lines description =>
      let parts := (splitBlocks lines).map Part.ofBlock
      let headings := (parts.flatMap Part.blocks).map fun block => (headingOf block).nodeId
      have hknown {id : String} : id ∈ (headings.foldl Session.declaring s).declared ↔
          id ∈ s.declared ∨ id ∈ headings := Session.mem_declared_foldl headings s
      have hparts := Grounded.always grounded_part parts (headings.foldl Session.declaring s)
      have hall : Grounded [] s
          (operationsOfAll partOperations (headings.foldl Session.declaring s) parts).1
          (operationsOfAll partOperations (headings.foldl Session.declaring s) parts).2 := by
        refine ⟨fun id hid => hparts.keeps (hknown.mpr (Or.inl hid)), ?_, hparts.refers⟩
        intro id hid
        rcases List.mem_append.mp (hparts.declares hid) with hid | hid
        · rcases hknown.mp hid with hid | hid
          · exact List.mem_append_left _ hid
          · obtain ⟨block, hblock, rfl⟩ := List.mem_map.mp hid
            exact List.mem_append_right _ (heading_mem_nodeIds hblock _)
        · exact List.mem_append_right _ hid
      refine (hall.appendPlain ?_).appendPlain ?_
      all_goals
        intro op hop
        obtain ⟨text, -, rfl⟩ := List.mem_map.mp hop
        rfl

/-- **References are grounded**: in the stream of the texts of a session every reference is to
a node or a morph that the stream declares, or to the field that can be set. -/
theorem known_of_mem_references (texts : List String) {op : Operation}
    (hop : op ∈ (operationsOfAll operationsIn .empty texts).1) {ref : Reference}
    (href : ref ∈ op.references) :
    ref.Known (nodeIds (operationsOfAll operationsIn .empty texts).1)
      (morphKeys (operationsOfAll operationsIn .empty texts).1) := by
  have h := Grounded.always grounded_text texts .empty
  exact (h.refers op hop ref href).mono h.declares (List.Subset.refl _)

end NoteGraph
