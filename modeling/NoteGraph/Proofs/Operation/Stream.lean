import NoteGraph.Operation.OfText
import NoteGraph.Proofs.Number.Canonical
import NoteGraph.Proofs.Operation.Session

/-!
# How streams come about

The operations of a text are emitted one after another while the session changes: nodes
are declared, morphs are numbered, and every record is given its identifier by a claim of
its morph and its content. So two records of a stream that share an identifier have the
same content and different morphs.
-/

namespace NoteGraph

open NoteGraph.Language

/-! ### Content -/

/-- The morph that a record is made under, and the content by which it claims its
identifier. -/
def Operation.claimed? (op : Operation) : Option (Option String × Signature) :=
  match op.action with
  | .addRelation r => some (r.morphId, .relation r.name r.weight)
  | .addAttribute r =>
    some (r.morphId, .attribute r.name r.value r.unit r.adverb r.modality r.quantifier)
  | .applyFunction r => some (r.morphId, .function r.name)
  | _ => none

/-- Content as texts write it. -/
def Signature.IsCanonical : Signature → Prop
  | relation _ weight => weight.IsCanonical
  | _ => True

/-- Contents that agree are the same. -/
theorem Signature.eq_of_same : ∀ a b : Signature, a.IsCanonical → b.IsCanonical →
    (a == b) = true → a = b
  | .relation name weight, .relation name' weight', ha, hb, h => by
    change Signature.same (.relation name weight) (.relation name' weight') = true at h
    rw [Signature.same, Bool.and_eq_true, beq_iff_eq] at h
    rw [h.1, Number.eq_of_same ha hb h.2]
  | .relation .., .attribute .., _, _, h => of_decide_eq_true h
  | .relation .., .function _, _, _, h => of_decide_eq_true h
  | .attribute .., _, _, _, h => of_decide_eq_true h
  | .function _, _, _, _, h => of_decide_eq_true h

/-! ### Emissions -/

/-- The operations that are emitted while one session becomes another. -/
inductive Emits : TextSession → List Operation → TextSession → Prop where
  | nil (s : TextSession) : Emits s [] s
  | declare (s : TextSession) (nodeId : String) : Emits s [] (s.declaring nodeId)
  | other (s : TextSession) {op : Operation} (h : op.claimed? = none)
      (hmorph : ∀ record, op.action ≠ .addMorph record) : Emits s [op] s
  | morph (s : TextSession) (node name : String) :
      Emits s
        [{ id := node ++ "_morph_" ++ name
           action := .addMorph ⟨node,
             node ++ "_morph_" ++ slug name ++ "_" ++ toString s.nextMorph.1, name⟩ }]
        s.nextMorph.2
  | record (s : TextSession) (baseId : String) {op : Operation} {morph : Option String}
      {content : Signature} (h : op.claimed? = some (morph, content))
      (hcanonical : content.IsCanonical) (hid : op.id = (s.claim baseId morph content).1) :
      Emits s [op] (s.claim baseId morph content).2
  | append {s s' s'' : TextSession} {ops more : List Operation} :
      Emits s ops s' → Emits s' more s'' → Emits s (ops ++ more) s''

namespace Emits

theorem cons {s s' s'' : TextSession} {op : Operation} {more : List Operation}
    (h : Emits s [op] s') (hmore : Emits s' more s'') : Emits s (op :: more) s'' :=
  h.append hmore

theorem declared {s s' : TextSession} {nodeId : String} {ops : List Operation}
    (h : Emits (s.declaring nodeId) ops s') : Emits s ops s' :=
  (declare s nodeId).append h

theorem declareAll (nodeIds : List String) :
    ∀ s : TextSession, Emits s [] (nodeIds.foldl Session.declaring s) := by
  induction nodeIds with
  | nil => exact nil
  | cons nodeId rest ih => exact fun s => (ih (s.declaring nodeId)).declared

theorem others {ops : List Operation} (h : ∀ op ∈ ops, op.claimed? = none)
    (hmorph : ∀ op ∈ ops, ∀ record, op.action ≠ .addMorph record) (s : TextSession) :
    Emits s ops s := by
  induction ops with
  | nil => exact nil s
  | cons op rest ih =>
    exact (other s (h op List.mem_cons_self) (hmorph op List.mem_cons_self)).cons
      (ih (fun o ho => h o (List.mem_cons_of_mem _ ho))
        fun o ho => hmorph o (List.mem_cons_of_mem _ ho))

end Emits

/-- A step whose operations are emitted while its session changes. -/
def IsEmission {α : Type} (step : TextSession → α → List Operation × TextSession) : Prop :=
  ∀ s a, Emits s (step s a).1 (step s a).2

theorem IsEmission.all {α : Type} {step : TextSession → α → List Operation × TextSession}
    (h : IsEmission step) : IsEmission (operationsOfAll step) := by
  intro s as
  induction as generalizing s with
  | nil => exact .nil s
  | cons a rest ih => exact (h s a).append (ih (step s a).2)

theorem isEmission_target (node : String) (morph : Option String) (surface : String) :
    IsEmission (targetOperations node morph surface) := by
  intro s raw
  have hweight := isCanonical_weight raw
  unfold targetOperations
  generalize Target.ofRaw raw = target at hweight ⊢
  by_cases hempty : target.nodeId.isEmpty = true
  · rw [if_pos hempty]
    exact .nil s
  · rw [if_neg hempty]
    cases hdeclare : s.declare target.nodeId with
    | mk isNew next =>
      -- the node is declared in any case, and its placeholder comes before the relation
      have hnext : s.declaring target.nodeId = next := by rw [Session.declaring, hdeclare]
      refine @Emits.declared _ _ target.nodeId _ ?_
      rw [hnext]
      have hrelation := fun op => @Emits.record next
        ("rel_" ++ node ++ "_" ++ slug surface ++ "_" ++ target.nodeId) op morph
        (.relation ((bookingRelations.lookup surface).getD surface) target.weight)
      cases isNew with
      | true =>
        refine Emits.cons (.other next rfl ?_) (hrelation _ rfl hweight rfl)
        intro record h
        cases h
      | false => exact hrelation _ rfl hweight rfl

theorem isEmission_statement (node : String) (morph : Option String) :
    IsEmission (statementOperations node morph) := by
  intro s statement
  cases statement with
  | description text => exact .other s rfl fun _ h => nomatch h
  | «attribute» line => exact .record s _ rfl trivial rfl
  | function name => exact .record s _ rfl trivial rfl
  | relation surface targets => exact (isEmission_target node morph surface).all s targets

theorem isEmission_section (node : String) (morph : Option String) :
    IsEmission (sectionOperations node morph) :=
  fun s lines => (isEmission_statement node morph).all s (statements false lines)

theorem isEmission_morph (node : String) : IsEmission (morphOperations node) := by
  intro s part
  exact (Emits.morph s node part.name).cons (isEmission_section node _ _ part.lines)

theorem isEmission_block : IsEmission blockOperations := by
  intro s block
  have hbody := isEmission_section (headingOf block).nodeId none
    (s.declaring (headingOf block).nodeId) block.body
  refine (Emits.declared (.cons (.other _ rfl ?_) hbody)).append
    ((isEmission_morph (headingOf block).nodeId).all _ block.morphs)
  intro record h
  cases h

theorem isEmission_items (root relation : String) (items : List MindmapItem) :
    ∀ (above : List (String × ℕ)) (s : TextSession),
      Emits s (itemOperations root relation above s items).1
        (itemOperations root relation above s items).2 := by
  induction items with
  | nil => exact fun _ s => .nil s
  | cons item rest ih =>
    intro above s
    refine Emits.declared (.cons (.other _ rfl ?_) (.cons (.record _ _ rfl ?_ rfl) (ih _ _)))
    · intro record h
      cases h
    · exact Number.isCanonical_one

theorem isEmission_mindmap : IsEmission mindmapOperations := by
  intro s lines
  cases lines with
  | nil => exact .nil s
  | cons first rest =>
    rw [mindmapOperations]
    cases MindmapHeading.ofLine? first with
    | none => exact .nil s
    | some heading =>
      refine Emits.declared (.cons (.other _ rfl ?_) (isEmission_items _ _ _ _ _))
      intro record h
      cases h

theorem isEmission_part : IsEmission partOperations := by
  intro s part
  cases part with
  | mindmap lines => exact isEmission_mindmap s lines
  | nodes blocks => exact isEmission_block.all s blocks

/-- **Streams are emissions**: the operations of a text are emitted while its session
changes. -/
theorem emits_operationsIn (s : TextSession) (text : String) :
    Emits s (operationsIn s text).1 (operationsIn s text).2 := by
  unfold operationsIn
  by_cases hempty : text.isEmpty = true
  · rw [if_pos hempty]
    exact .nil s
  · rw [if_neg hempty]
    cases cutDescription false (linesOfText text) with
    | mk lines description =>
      refine Emits.append (Emits.append
        ((Emits.declareAll _ s).append (isEmission_part.all _ _)) (.others ?_ ?_ _))
        (.others ?_ ?_ _)
      all_goals
        intro op hop
        obtain ⟨text, -, rfl⟩ := List.mem_map.mp hop
      · rfl
      · intro record h
        cases h
      · rfl
      · intro record h
        cases h

/-! ### Shared identifiers -/

theorem Session.claims_declaring (s : TextSession) (nodeId : String) :
    (s.declaring nodeId).claims = s.claims := by
  unfold Session.declaring Session.declare
  split_ifs <;> rfl

namespace Emits

variable {s s' : TextSession} {ops : List Operation}

theorem isSound (h : Emits s ops s') (hs : s.IsSound Signature.IsCanonical) :
    s'.IsSound Signature.IsCanonical := by
  induction h with
  | nil => exact hs
  | declare s nodeId =>
    have hclaims := Session.claims_declaring s nodeId
    exact ⟨hclaims ▸ hs.distinct, hclaims ▸ hs.signatures⟩
  | other => exact hs
  | morph => exact ⟨hs.distinct, hs.signatures⟩
  | record s baseId _ hcanonical _ => exact hs.claim s baseId hcanonical
  | append _ _ ih ih' => exact ih' (ih hs)

/-- What is held once is held from then on. -/
theorem holds_mono (h : Emits s ops s') {id : String} {morph : Option String}
    {content : Signature} (hholds : s.Holds id morph content) : s'.Holds id morph content := by
  induction h with
  | nil => exact hholds
  | declare s nodeId => rwa [Session.Holds, Session.claims_declaring]
  | other => exact hholds
  | morph => exact hholds
  | record s baseId => exact Session.Holds.claim s baseId hholds
  | append _ _ ih ih' => exact ih' (ih hholds)

theorem holds (h : Emits s ops s') (hs : s.IsSound Signature.IsCanonical) {op : Operation}
    (hop : op ∈ ops) {morph : Option String} {content : Signature}
    (hclaimed : op.claimed? = some (morph, content)) : s'.Holds op.id morph content := by
  induction h with
  | nil => cases hop
  | declare => cases hop
  | other _ hnone =>
    rw [List.mem_singleton.mp hop, hnone] at hclaimed
    cases hclaimed
  | morph =>
    rw [List.mem_singleton.mp hop] at hclaimed
    cases hclaimed
  | record s baseId hsome hcanonical hid =>
    obtain rfl := List.mem_singleton.mp hop
    obtain ⟨rfl, rfl⟩ := Prod.mk.inj (Option.some.inj (hsome.symm.trans hclaimed))
    rw [hid]
    exact Session.holds_claim s baseId Signature.eq_of_same hs hcanonical
  | append hfirst hmore ih ih' =>
    rcases List.mem_append.mp hop with hop | hop
    · exact hmore.holds_mono (ih hs hop)
    · exact ih' (hfirst.isSound hs) hop

/-- A record is never given an identifier that its morph has, nor one of other content. -/
theorem apart_of_holds (h : Emits s ops s') (hs : s.IsSound Signature.IsCanonical)
    {op : Operation} (hop : op ∈ ops) {morph morph' : Option String}
    {content content' : Signature} (hclaimed : op.claimed? = some (morph, content))
    (hholds : s.Holds op.id morph' content') : morph' ≠ morph ∧ content' = content := by
  induction h with
  | nil => cases hop
  | declare => cases hop
  | other _ hnone =>
    rw [List.mem_singleton.mp hop, hnone] at hclaimed
    cases hclaimed
  | morph =>
    rw [List.mem_singleton.mp hop] at hclaimed
    cases hclaimed
  | record s baseId hsome hcanonical hid =>
    obtain rfl := List.mem_singleton.mp hop
    obtain ⟨rfl, rfl⟩ := Prod.mk.inj (Option.some.inj (hsome.symm.trans hclaimed))
    rw [hid] at hholds
    exact hs.of_isFree Signature.eq_of_same hcanonical (s.isFree_claim _ _ _) hholds
  | append hfirst hmore ih ih' =>
    rcases List.mem_append.mp hop with hop | hop
    · exact ih hs hop hholds
    · exact ih' (hfirst.isSound hs) hop (hfirst.holds_mono hholds)

end Emits

/-- Records that share an identifier only with the same content and different morphs. -/
def Operation.Apart (a b : Operation) : Prop :=
  ∀ morph content morph' content', a.claimed? = some (morph, content) →
    b.claimed? = some (morph', content') → a.id = b.id → morph ≠ morph' ∧ content = content'

theorem Emits.pairwise_apart {s s' : TextSession} {ops : List Operation} (h : Emits s ops s')
    (hs : s.IsSound Signature.IsCanonical) : ops.Pairwise Operation.Apart := by
  induction h with
  | nil => exact List.Pairwise.nil
  | declare => exact List.Pairwise.nil
  | other => exact List.pairwise_singleton _ _
  | morph => exact List.pairwise_singleton _ _
  | record => exact List.pairwise_singleton _ _
  | append hfirst hmore ih ih' =>
    have hmid := hfirst.isSound hs
    refine List.pairwise_append.mpr ⟨ih hs, ih' hmid, fun a ha b hb => ?_⟩
    intro morph content morph' content' hca hcb hid
    exact hmore.apart_of_holds hmid hb hcb (hid ▸ hfirst.holds hs ha hca)

/-- **Shared identifiers**: two records of a text that share an identifier have the same
content and different morphs. -/
theorem pairwise_apart_operationsOf (text : String) :
    (operationsOf text).Pairwise Operation.Apart :=
  (emits_operationsIn .empty text).pairwise_apart (Session.isSound_empty _)

end NoteGraph
