import Mathlib.Algebra.Group.Nat.Even
import NoteGraph.Operation.OfText
import NoteGraph.Proofs.Language.Lines
import NoteGraph.Proofs.Language.Scanning

/-!
# Fences and operations

The operations of a text depend on its lines alone, and documents that read alike have the same
operations. So what stands in a fence does not matter, unless the fence holds a description.
-/

namespace NoteGraph

open NoteGraph.Language NoteGraph.Text

/-! ### Operations of lines -/

/-- The operations of the lines of a text in a session, and the session after it. -/
def operationsOfLines (s : TextSession) (lines : List String) : List Operation × TextSession :=
  let (lines, description) := cutDescription false lines
  let parts := (splitBlocks lines).map Part.ofBlock
  let headings := (parts.flatMap Part.blocks).map fun block => (headingOf block).nodeId
  let (ops, s) := operationsOfAll partOperations (headings.foldl Session.declaring s) parts
  let describe := description.toList.map fun text =>
    { id := "graph_description", action := .setDescription text : Operation }
  let currency := (findCurrency? false lines).toList.map fun currency =>
    { id := "graph_currency", action := .setCurrency currency : Operation }
  (ops ++ describe ++ currency, s)

/-- A text without characters has one empty line, which has no operations either. -/
theorem operationsIn_eq (s : TextSession) (text : String) :
    operationsIn s text = operationsOfLines s (linesOfText text) := by
  by_cases hempty : text.isEmpty = true
  · obtain rfl := String.isEmpty_iff.mp hempty
    have hlines : linesOfText "" = [""] := by decide +kernel
    have hcut : cutDescription false [""] = ([""], none) := by decide +kernel
    have hblocks : splitBlocks [""] = [.plain [""]] := by decide +kernel
    have houtline : outline [""] = [] := by decide +kernel
    have hcurrency : findCurrency? false [""] = none := by decide +kernel
    simp [operationsIn, operationsOfLines, hlines, hcut, hblocks, hcurrency, Part.ofBlock,
      Part.blocks, houtline, operationsOfAll, partOperations]
  · rw [operationsIn, if_neg hempty]
    rfl

/-! ### Alike documents -/

theorem operationsOfAll_congr {α : Type} {R : α → α → Prop}
    {step : TextSession → α → List Operation × TextSession}
    (hstep : ∀ a a', R a a' → ∀ s, step s a = step s a') {as as' : List α}
    (h : List.Forall₂ R as as') : ∀ s, operationsOfAll step s as = operationsOfAll step s as' := by
  induction h with
  | nil => exact fun _ => rfl
  | cons ha _ ih =>
    intro s
    simp only [operationsOfAll, hstep _ _ ha s, ih]

theorem map_eq_of_forall₂ {α β : Type} {R : α → α → Prop} {f : α → β}
    (hf : ∀ a a', R a a' → f a = f a') {as as' : List α} (h : List.Forall₂ R as as') :
    as.map f = as'.map f := by
  induction h with
  | nil => rfl
  | cons ha _ ih => rw [List.map_cons, List.map_cons, hf _ _ ha, ih]

theorem sectionOperations_congr {lines lines' : List String} (h : Alike lines lines')
    (node : String) (morph : Option String) (s : TextSession) :
    sectionOperations node morph s lines = sectionOperations node morph s lines' := by
  rw [sectionOperations, sectionOperations, h.statements_eq]

theorem morphOperations_congr {m m' : MorphSection} (h : SectionAlike m m') (node : String)
    (s : TextSession) : morphOperations node s m = morphOperations node s m' := by
  rw [morphOperations, morphOperations, h.name]
  simp only [sectionOperations_congr h.lines]

theorem blockOperations_congr {b b' : NodeBlock} (h : NodeAlike b b') (s : TextSession) :
    blockOperations s b = blockOperations s b' := by
  have hheading : headingOf b = headingOf b' := by rw [headingOf, headingOf, h.heading]
  have hmorphs := operationsOfAll_congr (R := SectionAlike)
    (fun _ _ hm => morphOperations_congr hm (headingOf b').nodeId) h.morphs
  simp only [blockOperations, hheading, sectionOperations_congr h.body, hmorphs]

theorem mindmapOperations_congr {l l' : String} {items items' : List String}
    (hheading : MindmapHeading.ofLine? l = MindmapHeading.ofLine? l')
    (hitems : items.filterMap MindmapItem.ofLine? = items'.filterMap MindmapItem.ofLine?)
    (s : TextSession) : mindmapOperations s (l :: items) = mindmapOperations s (l' :: items') := by
  rw [mindmapOperations, mindmapOperations, hheading, hitems]

theorem partOperations_congr {b b' : Block} (h : BlockAlike b b') (s : TextSession) :
    partOperations s (.ofBlock b) = partOperations s (.ofBlock b') := by
  cases h with
  | mindmap hheading hitems => exact mindmapOperations_congr hheading hitems s
  | plain h => exact operationsOfAll_congr (fun _ _ hb => blockOperations_congr hb) h.outline s

theorem nodeIds_congr {b b' : Block} (h : BlockAlike b b') :
    (Part.ofBlock b).blocks.map (fun block => (headingOf block).nodeId) =
      (Part.ofBlock b').blocks.map fun block => (headingOf block).nodeId := by
  cases h with
  | mindmap => rfl
  | plain h =>
    refine map_eq_of_forall₂ (R := NodeAlike) (fun b b' hb => ?_) h.outline
    rw [headingOf, headingOf, hb.heading]

/-- **Alike documents have the same operations.** -/
theorem operationsOfLines_congr {lines lines' : List String} (h : Alike lines lines')
    (s : TextSession) : operationsOfLines s lines = operationsOfLines s lines' := by
  obtain ⟨hkept, hdescription⟩ := h.cut
  have hblocks := hkept.blocks
  have hheadings : (((splitBlocks (cutDescription false lines).1).map Part.ofBlock).flatMap
        Part.blocks).map (fun block => (headingOf block).nodeId) =
      (((splitBlocks (cutDescription false lines').1).map Part.ofBlock).flatMap
        Part.blocks).map fun block => (headingOf block).nodeId := by
    rw [List.flatMap_map, List.map_flatMap, List.flatMap_map, List.map_flatMap, List.flatMap_def,
      List.flatMap_def]
    exact congrArg List.flatten
      (map_eq_of_forall₂ (R := BlockAlike) (fun _ _ => nodeIds_congr) hblocks)
  have hops : ∀ s, operationsOfAll partOperations s
        ((splitBlocks (cutDescription false lines).1).map Part.ofBlock) =
      operationsOfAll partOperations s
        ((splitBlocks (cutDescription false lines').1).map Part.ofBlock) := by
    refine operationsOfAll_congr (R := fun a a' => ∀ s, partOperations s a = partOperations s a')
      (fun _ _ ha => ha) ?_
    exact List.forall₂_map_left_iff.mpr (List.forall₂_map_right_iff.mpr
      (hblocks.imp fun _ _ hb => partOperations_congr hb))
  simp only [operationsOfLines, hheadings, hops, hdescription, hkept.currency]

/-! ### Fenced text -/

/-- **Fenced text does not matter**: the body of a fence can be replaced by any other without a
fence line, if the fence holds no description. In front of it all fences are closed. -/
theorem operationsIn_fenced {front body body' rest : List String} {first close : String}
    (hlines : ∀ line ∈ first :: close :: (front ++ body ++ body' ++ rest), '\n' ∉ line.toList)
    (hfront : Even (front.countP isFence)) (hfirst : isFence first = true)
    (hlanguage : fenceLanguage first ≠ "description")
    (hlanguage' : fenceLanguage first ≠ "graph-description") (hclose : isFence close = true)
    (hbody : ∀ line ∈ body, isFence line = false) (hbody' : ∀ line ∈ body', isFence line = false)
    (s : TextSession) :
    operationsIn s ("\n".intercalate (front ++ first :: (body ++ close :: rest))) =
      operationsIn s ("\n".intercalate (front ++ first :: (body' ++ close :: rest))) := by
  simp only [List.forall_mem_cons, List.forall_mem_append] at hlines
  obtain ⟨hfirstLine, hcloseLine, ⟨⟨hfrontLines, hbodyLines⟩, hbodyLines'⟩, hrestLines⟩ := hlines
  obtain ⟨hfence, hsame⟩ := isFence_chopLine hfirstLine
  obtain ⟨close', rest', hclosed, hfence'⟩ := exists_chopped_cons hcloseLine rest
  have hlinesOf : ∀ body : List String, (∀ line ∈ body, IsLine line.toList) →
      linesOfText ("\n".intercalate (front ++ first :: (body ++ close :: rest))) =
        front.map chopLine ++ chopLine first :: (body.map chopLine ++ close' :: rest') := by
    intro body hbody
    rw [linesOfText_intercalate, chopped_append _ (List.cons_ne_nil _ _), ← List.cons_append,
      chopped_append _ (List.cons_ne_nil _ _), hclosed, List.map_cons, List.cons_append]
    · simp only [List.forall_mem_cons, List.forall_mem_append]
      exact ⟨hfrontLines, hfirstLine, hbody, hcloseLine, hrestLines⟩
    · simp
  have hopen : isFence (chopLine first) = true := hfence.trans hfirst
  have hread : fenceLanguage (chopLine first) ∉ describedLanguages := by
    simp [describedLanguages, graphDescriptionFence, descriptionFence, hsame, hlanguage,
      hlanguage']
  rw [operationsIn_eq, operationsIn_eq, hlinesOf body hbodyLines, hlinesOf body' hbodyLines']
  refine operationsOfLines_congr (Alike.append _ ?_ ?_) s
  · exact .fence hopen hopen rfl (isBody_map_chopLine hbodyLines hbody)
      (isBody_map_chopLine hbodyLines' hbody') (hfence'.trans hclose) (hfence'.trans hclose)
      (fun hmem => absurd hmem hread) (.refl rest')
  · rwa [countP_map_chopLine hfrontLines]

/-- A fence of code that quotes headings, a relation and a currency reads as an empty one. -/
theorem operationsIn_fenced_quotation :
    operationsIn .empty ("\n".intercalate
        (["# a", "```", "# b", "```"] ++
          "```python" :: (["# c", "## m", "<is_a> d;", "currency: EUR"] ++
            "```" :: ["mass: 2"]))) =
      operationsIn .empty ("\n".intercalate
        (["# a", "```", "# b", "```"] ++ "```python" :: ([] ++ "```" :: ["mass: 2"]))) :=
  operationsIn_fenced (by decide +kernel) (by decide +kernel) (by decide +kernel)
    (by decide +kernel) (by decide +kernel) (by decide +kernel) (by decide +kernel)
    (by decide +kernel) .empty

end NoteGraph
