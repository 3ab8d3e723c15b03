import NoteGraph.Proofs.Operation.OfPassages

/-!
# Mentions

A text mentions nodes in headings, at the root and the items of a mindmap and as targets of
relations. Every mention declares its node, except that of a target whose node is known by then:
from the heading of a block anywhere in the text, or from a mention before.
-/

namespace NoteGraph

open NoteGraph.Language

/-! ### Mentions -/

/-- A place of a text that names a node. -/
inductive Mention where
  | heading (heading : Heading)
  /-- The root of a mindmap. -/
  | root (name : String)
  /-- An item of a mindmap. -/
  | item (name : String)
  /-- The target of a relation. -/
  | target (relation : String) (target : Target)
  deriving DecidableEq

namespace Mention

/-- The node that is mentioned. -/
def nodeId : Mention → String
  | heading h => h.nodeId
  | root name | item name => cleanName name
  | target _ t => t.nodeId

/-- The mention in the form of a heading. -/
def spelling : Mention → String
  | heading h => h.displayName
  | root name | item name => name
  | target _ t => t.surface

/-- Whether a relation leads to the node, which the text need not say more of. -/
def isTarget : Mention → Bool
  | target .. => true
  | _ => false

theorem isTarget_iff {m : Mention} :
    m.isTarget = true ↔ ∃ relation t, m = target relation t := by
  cases m <;> simp [isTarget]

/-- The node of the block that a mention opens. -/
def headed? : Mention → Option String
  | heading h => some h.nodeId
  | _ => none

/-- The operation that declares the node of a mention. -/
def declaration : Mention → Operation
  | heading h =>
    { id := h.nodeId
      action := .addNode {
        baseName := h.baseName
        displayName := h.displayName
        role := h.role
        adjective := h.adjective
        quantifier := h.quantifier } }
  | root name =>
    { id := cleanName name
      action := .addNode { baseName := name, displayName := name, role := individualRole }
      origin := mindmapOrigin }
  | item name =>
    { id := cleanName name
      action := .addNode { baseName := name, displayName := name, role := "class" }
      origin := mindmapOrigin }
  | target relation t =>
    { id := t.nodeId
      action := .addNode {
        baseName := t.baseName
        displayName := t.displayName
        role := if (bookingRelations.lookup relation).isSome then plainAccountRole else "class"
        adjective := t.adjective } }

@[simp] theorem id_declaration (m : Mention) : m.declaration.id = m.nodeId := by
  cases m <;> rfl

/-- Whether a mention declares its node when some nodes are known. -/
def isNew (known : List String) (m : Mention) : Bool :=
  !m.isTarget || !known.contains m.nodeId

end Mention

/-- The mention of a target, unless it has no identifier. -/
def targetMentions (relation raw : String) : List Mention :=
  let target := Target.ofRaw raw
  if target.nodeId.isEmpty then [] else [.target relation target]

/-- The mentions of a statement. -/
def statementMentions : Statement → List Mention
  | .relation name targets => targets.flatMap (targetMentions name)
  | _ => []

/-- The mentions of the lines of a section. -/
def sectionMentions (lines : List String) : List Mention :=
  (statements false lines).flatMap statementMentions

/-- The mentions of a node block. -/
def blockMentions (block : NodeBlock) : List Mention :=
  .heading (headingOf block) ::
    (sectionMentions block.body ++ block.morphs.flatMap fun part => sectionMentions part.lines)

/-- The mentions of a mindmap. -/
def mindmapMentions : List String → List Mention
  | [] => []
  | first :: rest =>
    match MindmapHeading.ofLine? first with
    | none => []
    | some heading =>
      .root heading.root :: (rest.filterMap MindmapItem.ofLine?).map fun item => .item item.name

/-- The mentions of a passage. -/
def Passage.mentions : Passage → List Mention
  | mindmap lines => mindmapMentions lines
  | node block => blockMentions block

/-- The mentions of a text in order. -/
def mentions (text : String) : List Mention := (passages text).flatMap Passage.mentions

/-- The nodes that have blocks. -/
def headed (ms : List Mention) : List String := ms.filterMap Mention.headed?

theorem headed_sectionMentions (lines : List String) : headed (sectionMentions lines) = [] := by
  rw [headed, List.filterMap_eq_nil_iff]
  intro m hm
  obtain ⟨statement, -, hm⟩ := List.mem_flatMap.mp hm
  cases statement with
  | relation name targets =>
    obtain ⟨raw, -, hm⟩ := List.mem_flatMap.mp hm
    rw [targetMentions] at hm
    by_cases hempty : (Target.ofRaw raw).nodeId.isEmpty = true
    · rw [if_pos hempty] at hm
      cases hm
    · rw [if_neg hempty] at hm
      rw [List.mem_singleton.mp hm]
      rfl
  | description text => cases hm
  | «attribute» line => cases hm
  | function name => cases hm

theorem headed_passage (passage : Passage) :
    headed passage.mentions =
      (passage.block?.map fun block => (headingOf block).nodeId).toList := by
  cases passage with
  | mindmap lines =>
    rw [headed, List.filterMap_eq_nil_iff.mpr]
    · rfl
    · intro m hm
      cases lines with
      | nil => cases hm
      | cons first rest =>
        rw [Passage.mentions, mindmapMentions] at hm
        cases hfirst : MindmapHeading.ofLine? first with
        | none => rw [hfirst] at hm; cases hm
        | some heading =>
          rw [hfirst] at hm
          rcases List.mem_cons.mp hm with rfl | hm
          · rfl
          · obtain ⟨item, -, rfl⟩ := List.mem_map.mp hm
            rfl
  | node block =>
    have hmorphs : headed (block.morphs.flatMap fun part => sectionMentions part.lines) = [] := by
      rw [headed, List.filterMap_flatMap]
      exact List.flatMap_eq_nil_iff.mpr fun part _ => headed_sectionMentions part.lines
    have hbody := headed_sectionMentions block.body
    unfold headed at hmorphs hbody ⊢
    rw [Passage.mentions, blockMentions, List.filterMap_cons, List.filterMap_append, hbody, hmorphs]
    rfl

theorem headed_passages (passages : List Passage) :
    headed (passages.flatMap Passage.mentions) = headingIds passages := by
  induction passages with
  | nil => rfl
  | cons passage rest ih =>
    have hpassage := headed_passage passage
    rw [headed] at ih hpassage ⊢
    rw [List.flatMap_cons, List.filterMap_append, ih, hpassage]
    cases passage <;> rfl

theorem mem_headed_iff {ms : List Mention} {id : String} :
    id ∈ headed ms ↔ ∃ h, Mention.heading h ∈ ms ∧ h.nodeId = id := by
  constructor
  · intro hid
    obtain ⟨m, hm, hheaded⟩ := List.mem_filterMap.mp hid
    cases m with
    | heading h => exact ⟨h, hm, Option.some.inj hheaded⟩
    | root name => cases hheaded
    | item name => cases hheaded
    | target relation t => cases hheaded
  · rintro ⟨h, hm, rfl⟩
    exact List.mem_filterMap.mpr ⟨_, hm, rfl⟩

/-! ### Marks -/

/-- Each mention with whether it declares its node. -/
def marked (known : List String) : List Mention → List (Mention × Bool)
  | [] => []
  | m :: rest => (m, m.isNew known) :: marked (m.nodeId :: known) rest

theorem marked_congr {known known' : List String} (h : ∀ id, id ∈ known' ↔ id ∈ known)
    (ms : List Mention) : marked known ms = marked known' ms := by
  induction ms generalizing known known' with
  | nil => rfl
  | cons m rest ih =>
    have hnew : m.isNew known = m.isNew known' := by
      simp only [Mention.isNew, List.contains_eq_mem, h]
    rw [marked, marked, hnew, ih fun id => ?_]
    rw [List.mem_cons, List.mem_cons, h]

/-- Mentions behind others are marked as the mentions of those who know these too. -/
theorem marked_append {known known' : List String} (ms more : List Mention)
    (h : ∀ id, id ∈ known' ↔ id ∈ known ∨ id ∈ ms.map Mention.nodeId) :
    marked known (ms ++ more) = marked known ms ++ marked known' more := by
  induction ms generalizing known with
  | nil =>
    rw [List.nil_append, marked, List.nil_append]
    exact marked_congr (fun id => (h id).trans (by simp)) more
  | cons m rest ih =>
    rw [List.cons_append, marked, marked, List.cons_append, ih fun id => ?_]
    rw [h, List.map_cons, List.mem_cons, List.mem_cons]
    tauto

theorem mem_of_mem_marked {m : Mention × Bool} (ms : List Mention) :
    ∀ known : List String, m ∈ marked known ms → m.1 ∈ ms := by
  induction ms with
  | nil => exact fun _ h => by cases h
  | cons first rest ih =>
    intro known h
    rcases List.mem_cons.mp h with rfl | h
    · exact List.mem_cons_self
    · exact List.mem_cons_of_mem _ (ih _ h)

theorem exists_mem_marked {m : Mention} {ms : List Mention} (hm : m ∈ ms) :
    ∀ known : List String, ∃ isNew, (m, isNew) ∈ marked known ms := by
  induction ms with
  | nil => cases hm
  | cons first rest ih =>
    intro known
    rcases List.mem_cons.mp hm with rfl | hm
    · exact ⟨_, List.mem_cons_self⟩
    · obtain ⟨isNew, hmem⟩ := ih hm (first.nodeId :: known)
      exact ⟨isNew, List.mem_cons_of_mem _ hmem⟩

/-- A mention that is no target declares its node. -/
theorem isNew_of_mem_marked {m : Mention} {isNew : Bool} (hm : m.isTarget = false)
    (ms : List Mention) : ∀ known : List String, (m, isNew) ∈ marked known ms → isNew = true := by
  induction ms with
  | nil => exact fun _ h => by cases h
  | cons first rest ih =>
    intro known h
    rcases List.mem_cons.mp h with heq | h
    · obtain ⟨rfl, rfl⟩ := Prod.mk.inj heq
      rw [Mention.isNew, hm]
      rfl
    · exact ih _ h

/-! ### First mentions -/

/-- The first mention of a node. -/
def firstMention? (ms : List Mention) (id : String) : Option Mention := ms.find? (·.nodeId == id)

theorem firstMention?_cons_self (m : Mention) (ms : List Mention) :
    firstMention? (m :: ms) m.nodeId = some m := by
  simp [firstMention?]

theorem firstMention?_cons_of_ne {m : Mention} {id : String} (h : m.nodeId ≠ id)
    (ms : List Mention) : firstMention? (m :: ms) id = firstMention? ms id := by
  simp [firstMention?, h]

/-- The targets that declare their nodes are the first mentions of nodes that are not known. -/
theorem target_mem_marked_iff {relation : String} {t : Target} (ms : List Mention) :
    ∀ known : List String, (Mention.target relation t, true) ∈ marked known ms ↔
      t.nodeId ∉ known ∧ firstMention? ms t.nodeId = some (.target relation t) := by
  induction ms with
  | nil => simp [marked, firstMention?]
  | cons m rest ih =>
    intro known
    rw [marked, List.mem_cons, ih, List.mem_cons, not_or]
    by_cases hid : m.nodeId = t.nodeId
    · rw [← hid, firstMention?_cons_self, Prod.mk.injEq, Option.some.injEq]
      constructor
      · rintro (⟨rfl, hnew⟩ | ⟨⟨hne, -⟩, -⟩)
        · exact ⟨by simpa [Mention.isNew, Mention.isTarget] using hnew, rfl⟩
        · exact absurd rfl hne
      · rintro ⟨hknown, rfl⟩
        exact .inl ⟨rfl, by simpa [Mention.isNew, Mention.isTarget] using hknown⟩
    · rw [firstMention?_cons_of_ne hid]
      constructor
      · rintro (heq | ⟨⟨-, hknown⟩, hfirst⟩)
        · exact absurd (congrArg (·.1.nodeId) heq).symm hid
        · exact ⟨hknown, hfirst⟩
      · rintro ⟨hknown, hfirst⟩
        exact .inr ⟨⟨fun h => hid h.symm, hknown⟩, hfirst⟩

end NoteGraph
