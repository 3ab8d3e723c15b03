import NoteGraph.Proofs.Language.Fenced

/-!
# Scanners

Each of the scanners of a document carries a flag for being inside a fence. Here it is told
what each of them does with a whole body and the fence line that ends it, and from that, that
it reads documents alike that read alike line by line outside of their fences.
-/

namespace NoteGraph.Language

open Text

variable {body lines lines' rest : List String} {line close : String}

/-! ### The description of the graph -/

theorem captureDescription_body (hbody : IsBody body) (hclose : isFence close = true) :
    ∀ captured, captureDescription captured (body ++ close :: rest) =
      ((cutDescription false rest).1, some (trimmedText (captured ++ body))) := by
  induction body with
  | nil => simp [captureDescription, hclose]
  | cons line body ih =>
    obtain ⟨hline, hrest⟩ := List.forall_mem_cons.mp hbody
    intro captured
    simp [captureDescription, hline, ih hrest]

theorem captureDescription_unclosed (hbody : IsBody body) :
    ∀ captured, captureDescription captured body = (captured ++ body, none) := by
  induction body with
  | nil => simp [captureDescription]
  | cons line body ih =>
    obtain ⟨hline, hrest⟩ := List.forall_mem_cons.mp hbody
    intro captured
    simp [captureDescription, hline, ih hrest]

theorem cutDescription_line (hline : isFence line = false) : cutDescription false (line :: rest) =
    (line :: (cutDescription false rest).1, (cutDescription false rest).2) := by
  simp [cutDescription, hline]

theorem cutDescription_body (hbody : IsBody body) (hclose : isFence close = true) :
    cutDescription true (body ++ close :: rest) =
      (body ++ close :: (cutDescription false rest).1, (cutDescription false rest).2) := by
  induction body with
  | nil => simp [cutDescription, hclose]
  | cons line body ih =>
    obtain ⟨hline, hrest⟩ := List.forall_mem_cons.mp hbody
    simp [cutDescription, hline, ih hrest]

theorem cutDescription_unclosed (hbody : IsBody body) :
    cutDescription true body = (body, none) := by
  induction body with
  | nil => simp [cutDescription]
  | cons line body ih =>
    obtain ⟨hline, hrest⟩ := List.forall_mem_cons.mp hbody
    simp [cutDescription, hline, ih hrest]

/-- The lines that are left of alike documents are alike, and so are the descriptions. -/
theorem Alike.cut (h : Alike lines lines') :
    Alike (cutDescription false lines).1 (cutDescription false lines').1 ∧
      (cutDescription false lines).2 = (cutDescription false lines').2 := by
  induction h with
  | nil => exact ⟨.nil, rfl⟩
  | line hl hl' hread _ ih =>
    rw [cutDescription_line hl, cutDescription_line hl']
    exact ⟨.line hl hl' hread ih.1, ih.2⟩
  | @fence o o' c c' body body' rest rest' ho ho' hlanguage hbody hbody' hc hc' hread _ ih =>
    by_cases hgraph : fenceLanguage o = graphDescriptionFence
    · have hgraph' := hlanguage ▸ hgraph
      obtain rfl := hread (hgraph ▸ List.mem_cons_self)
      simp only [cutDescription, ho, ho', hgraph, hgraph', Bool.not_false, Bool.and_true,
        beq_self_eq_true, if_true, captureDescription_body hbody hc,
        captureDescription_body hbody hc']
      exact ⟨ih.1, trivial⟩
    · have hgraph' : fenceLanguage o' ≠ graphDescriptionFence := hlanguage ▸ hgraph
      simp only [cutDescription, ho, ho', Bool.not_false, Bool.and_true, beq_iff_eq,
        hgraph, hgraph', if_false, Bool.true_and, Bool.false_bne, cutDescription_body hbody hc,
        cutDescription_body hbody' hc']
      exact ⟨.fence ho ho' hlanguage hbody hbody' hc hc' hread ih.1, ih.2⟩
  | @unclosed o o' body body' ho ho' hlanguage hbody hbody' hread =>
    by_cases hgraph : fenceLanguage o = graphDescriptionFence
    · have hgraph' := hlanguage ▸ hgraph
      simp only [cutDescription, ho, ho', hgraph, hgraph', Bool.not_false, Bool.and_true,
        beq_self_eq_true, if_true, captureDescription_unclosed hbody,
        captureDescription_unclosed hbody', List.nil_append]
      exact ⟨.ofForall₂ (hread hgraph) hbody hbody', trivial⟩
    · have hgraph' : fenceLanguage o' ≠ graphDescriptionFence := hlanguage ▸ hgraph
      simp only [cutDescription, ho, ho', Bool.not_false, Bool.and_true, beq_iff_eq,
        hgraph, hgraph', if_false, Bool.true_and, Bool.false_bne, cutDescription_unclosed hbody,
        cutDescription_unclosed hbody']
      exact ⟨.unclosed ho ho' hlanguage hbody hbody' hread, trivial⟩

/-! ### The currency -/

theorem findCurrency?_body (hbody : IsBody body) (hclose : isFence close = true) :
    findCurrency? true (body ++ close :: rest) = findCurrency? false rest := by
  induction body with
  | nil => simp [findCurrency?, hclose]
  | cons line body ih =>
    obtain ⟨hline, hrest⟩ := List.forall_mem_cons.mp hbody
    simp [findCurrency?, hline, ih hrest]

theorem findCurrency?_unclosed (hbody : IsBody body) : findCurrency? true body = none := by
  induction body with
  | nil => simp [findCurrency?]
  | cons line body ih =>
    obtain ⟨hline, hrest⟩ := List.forall_mem_cons.mp hbody
    simp [findCurrency?, hline, ih hrest]

theorem Alike.currency (h : Alike lines lines') :
    findCurrency? false lines = findCurrency? false lines' := by
  induction h with
  | nil => rfl
  | line hl hl' hread _ ih => simp [findCurrency?, hl, hl', hread.currency, ih]
  | fence _ _ _ hbody hbody' hc hc' _ _ ih =>
    simp [findCurrency?, findCurrency?_body, *]
  | unclosed _ _ _ hbody hbody' _ =>
    simp [findCurrency?, findCurrency?_unclosed, *]

/-! ### Mindmaps and node blocks -/

theorem isBlankLine_iff : isBlankLine line = true ↔ LineKind.ofLine line = .blank := by
  simp only [isBlankLine, LineKind.ofLine]
  split_ifs <;> simp_all

theorem SameReading.isBlankLine {l l' : String} (h : SameReading l l') :
    isBlankLine l = isBlankLine l' := by
  rw [Bool.eq_iff_iff, isBlankLine_iff, isBlankLine_iff, h.kind]

/-- The items after a mindmap heading are the same in alike documents. -/
theorem Alike.items (h : Alike lines lines') :
    (takeItems lines).1.filterMap MindmapItem.ofLine? =
        (takeItems lines').1.filterMap MindmapItem.ofLine? ∧
      Alike (takeItems lines).2 (takeItems lines').2 := by
  induction h with
  | nil => exact ⟨rfl, .nil⟩
  | @line l l' rest rest' hl hl' hread hrest ih =>
    have hitem : isMindmapItem l = isMindmapItem l' := by
      rw [isMindmapItem, isMindmapItem, hread.item]
    simp only [takeItems, hread.isBlankLine, hitem]
    split_ifs
    · exact ih
    · exact ⟨by rw [List.filterMap_cons, List.filterMap_cons, hread.item, ih.1], ih.2⟩
    · exact ⟨rfl, .line hl hl' hread hrest⟩
  | fence ho ho' hlanguage hbody hbody' hc hc' hread hrest _ =>
    simp only [takeItems, isBlankLine_of_isFence ho, isBlankLine_of_isFence ho',
      isMindmapItem_of_isFence ho, isMindmapItem_of_isFence ho', Bool.false_eq_true, if_false]
    exact ⟨trivial, .fence ho ho' hlanguage hbody hbody' hc hc' hread hrest⟩
  | unclosed ho ho' hlanguage hbody hbody' hread =>
    simp only [takeItems, isBlankLine_of_isFence ho, isBlankLine_of_isFence ho',
      isMindmapItem_of_isFence ho, isMindmapItem_of_isFence ho', Bool.false_eq_true, if_false]
    exact ⟨trivial, .unclosed ho ho' hlanguage hbody hbody' hread⟩

theorem takePlain_line (hline : isMindmapHeading line = false) : takePlain false (line :: rest) =
    (line :: (takePlain (isFence line) rest).1, (takePlain (isFence line) rest).2) := by
  simp [takePlain, hline]

theorem takePlain_body (hbody : IsBody body) (hclose : isFence close = true) :
    takePlain true (body ++ close :: rest) =
      (body ++ close :: (takePlain false rest).1, (takePlain false rest).2) := by
  induction body with
  | nil => simp [takePlain, hclose]
  | cons line body ih =>
    obtain ⟨hline, hrest⟩ := List.forall_mem_cons.mp hbody
    simp [takePlain, hline, ih hrest]

theorem takePlain_unclosed (hbody : IsBody body) : takePlain true body = (body, []) := by
  induction body with
  | nil => simp [takePlain]
  | cons line body ih =>
    obtain ⟨hline, hrest⟩ := List.forall_mem_cons.mp hbody
    simp [takePlain, hline, ih hrest]

/-- Alike documents are cut at the same mindmap heading. -/
theorem Alike.plain (h : Alike lines lines') :
    Alike (takePlain false lines).1 (takePlain false lines').1 ∧
      Alike (takePlain false lines).2 (takePlain false lines').2 := by
  induction h with
  | nil => exact ⟨.nil, .nil⟩
  | @line l l' rest rest' hl hl' hread hrest ih =>
    have hheading : isMindmapHeading l = isMindmapHeading l' := by
      rw [isMindmapHeading, isMindmapHeading, hread.heading]
    by_cases hopens : isMindmapHeading l' = true
    · simp only [takePlain, hheading, hopens, Bool.not_false, Bool.and_true, if_true]
      exact ⟨.nil, .line hl hl' hread hrest⟩
    · rw [Bool.not_eq_true] at hopens
      rw [takePlain_line (hheading.trans hopens), takePlain_line hopens, hl, hl']
      exact ⟨.line hl hl' hread ih.1, ih.2⟩
  | fence ho ho' hlanguage hbody hbody' hc hc' hread hrest ih =>
    rw [takePlain_line (isMindmapHeading_of_isFence ho),
      takePlain_line (isMindmapHeading_of_isFence ho'), ho, ho', takePlain_body hbody hc,
      takePlain_body hbody' hc']
    exact ⟨.fence ho ho' hlanguage hbody hbody' hc hc' hread ih.1, ih.2⟩
  | unclosed ho ho' hlanguage hbody hbody' hread =>
    rw [takePlain_line (isMindmapHeading_of_isFence ho),
      takePlain_line (isMindmapHeading_of_isFence ho'), ho, ho', takePlain_unclosed hbody,
      takePlain_unclosed hbody']
    exact ⟨.unclosed ho ho' hlanguage hbody hbody' hread, .nil⟩

/-- Blocks that read alike. -/
inductive BlockAlike : Block → Block → Prop where
  | mindmap {l l' : String} {items items' : List String}
      (hheading : MindmapHeading.ofLine? l = MindmapHeading.ofLine? l')
      (hitems : items.filterMap MindmapItem.ofLine? = items'.filterMap MindmapItem.ofLine?) :
      BlockAlike (.mindmap (l :: items)) (.mindmap (l' :: items'))
  | plain {lines lines' : List String} (h : Alike lines lines') :
      BlockAlike (.plain lines) (.plain lines')

theorem splitBlocks_cons (line : String) (rest : List String) : splitBlocks (line :: rest) =
    if isMindmapHeading line then
      .mindmap (line :: (takeItems rest).1) :: splitBlocks (takeItems rest).2
    else .plain (takePlain false (line :: rest)).1 ::
      splitBlocks (takePlain false (line :: rest)).2 := by
  rw [splitBlocks]
  split_ifs with hheading
  · rfl
  · rw [takePlain_line (eq_false_of_ne_true hheading)]

theorem takePlain_length_lt (h : isMindmapHeading line = false) :
    (takePlain false (line :: rest)).2.length < (line :: rest).length := by
  rw [takePlain_line h]
  exact Nat.lt_succ_of_le (takePlain_length_le _ rest)

theorem Alike.exists_cons (h : Alike (line :: rest) lines') : ∃ line' rest',
    lines' = line' :: rest' ∧ MindmapHeading.ofLine? line = MindmapHeading.ofLine? line' ∧
      (isMindmapHeading line = true → Alike rest rest') := by
  have hnone : ∀ {o : String}, isFence o = true → MindmapHeading.ofLine? o = none := fun ho => by
    simpa [isMindmapHeading] using isMindmapHeading_of_isFence ho
  cases h with
  | line hl hl' hread hrest => exact ⟨_, _, rfl, hread.heading, fun _ => hrest⟩
  | fence ho ho' =>
    refine ⟨_, _, rfl, (hnone ho).trans (hnone ho').symm, fun hopens => ?_⟩
    rw [isMindmapHeading_of_isFence ho] at hopens
    cases hopens
  | unclosed ho ho' =>
    refine ⟨_, _, rfl, (hnone ho).trans (hnone ho').symm, fun hopens => ?_⟩
    rw [isMindmapHeading_of_isFence ho] at hopens
    cases hopens

/-- Alike documents have alike blocks. -/
theorem Alike.blocks : ∀ {lines lines' : List String}, Alike lines lines' →
    List.Forall₂ BlockAlike (splitBlocks lines) (splitBlocks lines')
  | [], lines', h => by
    cases h
    simp [splitBlocks]
  | first :: rest, lines', h => by
    obtain ⟨first', rest', rfl, hheading, hrest⟩ := h.exists_cons
    have hopens : isMindmapHeading first = isMindmapHeading first' := by
      rw [isMindmapHeading, isMindmapHeading, hheading]
    rw [splitBlocks_cons, splitBlocks_cons, ← hopens]
    cases hfirst : isMindmapHeading first with
    | true =>
      obtain ⟨hitems, hafter⟩ := (hrest hfirst).items
      exact .cons (.mindmap hheading hitems) hafter.blocks
    | false =>
      obtain ⟨hplain, hafter⟩ := h.plain
      exact .cons (.plain hplain) hafter.blocks
termination_by lines => lines.length
decreasing_by
  · exact takePlain_length_lt hfirst
  · exact Nat.lt_succ_of_le (takeItems_length_le rest)

/-! ### Outlines -/

/-- Sections that read alike. -/
structure SectionAlike (m m' : MorphSection) : Prop where
  name : m.name = m'.name
  lines : Alike m.lines m'.lines

/-- Node blocks that read alike. -/
structure NodeAlike (b b' : NodeBlock) : Prop where
  heading : b.heading = b'.heading
  body : Alike b.body b'.body
  morphs : List.Forall₂ SectionAlike b.morphs b'.morphs

/-- Groupings that read alike. -/
structure GroupingAlike (g g' : Grouping) : Prop where
  lines : Alike g.lines g'.lines
  morphs : List.Forall₂ SectionAlike g.morphs g'.morphs
  blocks : List.Forall₂ NodeAlike g.blocks g'.blocks

theorem entries_body (hbody : IsBody body) (hclose : isFence close = true) :
    entries true (body ++ close :: rest) =
      body.map .content ++ .content close :: entries false rest := by
  induction body with
  | nil => simp [entries, hclose]
  | cons line body ih =>
    obtain ⟨hline, hrest⟩ := List.forall_mem_cons.mp hbody
    simp [entries, hline, ih hrest]

theorem entries_unclosed (hbody : IsBody body) : entries true body = body.map .content := by
  induction body with
  | nil => simp [entries]
  | cons line body ih =>
    obtain ⟨hline, hrest⟩ := List.forall_mem_cons.mp hbody
    simp [entries, hline, ih hrest]

theorem entries_fence (hline : isFence line = true) :
    entries false (line :: rest) = .content line :: entries true rest := by
  simp [entries, kind_of_isFence hline]

theorem foldr_content (lines : List String) (g : Grouping) :
    (lines.map Entry.content).foldr Grouping.cons g = { g with lines := lines ++ g.lines } := by
  induction lines with
  | nil => rfl
  | cons line rest ih => simp [ih, Grouping.cons]

/-- The lines of alike documents are grouped under the same headings. -/
theorem Alike.grouping (h : Alike lines lines') :
    GroupingAlike ((entries false lines).foldr Grouping.cons {})
      ((entries false lines').foldr Grouping.cons {}) := by
  induction h with
  | nil => exact ⟨.nil, .nil, .nil⟩
  | @line l l' rest rest' hl hl' hread _ ih =>
    obtain ⟨hlines, hmorphs, hblocks⟩ := ih
    have hcontent : GroupingAlike
        (((entries false rest).foldr Grouping.cons {}).cons (.content l))
        (((entries false rest').foldr Grouping.cons {}).cons (.content l')) :=
      ⟨.line hl hl' hread hlines, hmorphs, hblocks⟩
    have htext : trimmed l.toList = trimmed l'.toList := congrArg String.ofList hread.text
    have hname : morphName l = morphName l' := by rw [morphName, morphName, hread.text]
    rw [entries, entries, if_neg Bool.false_ne_true, if_neg Bool.false_ne_true, hread.kind]
    cases hkind : LineKind.ofLine l' with
    | blank => exact ⟨hlines, hmorphs, hblocks⟩
    | fence => exact absurd (isFence_iff.mpr hkind) (ne_true_of_eq_false hl')
    | nodeHeading => exact ⟨.nil, .nil, .cons ⟨htext, hlines, hmorphs⟩ hblocks⟩
    | morphHeading => exact ⟨.nil, .cons ⟨hname, hlines⟩ hmorphs, hblocks⟩
    | relation | function | «attribute» | text => exact hcontent
  | fence ho ho' hlanguage hbody hbody' hc hc' hread _ ih =>
    rw [entries_fence ho, entries_fence ho', entries_body hbody hc, entries_body hbody' hc']
    simp only [List.foldr_cons, List.foldr_append, foldr_content]
    exact ⟨.fence ho ho' hlanguage hbody hbody' hc hc' hread ih.lines, ih.morphs, ih.blocks⟩
  | unclosed ho ho' hlanguage hbody hbody' hread =>
    rw [entries_fence ho, entries_fence ho', entries_unclosed hbody, entries_unclosed hbody']
    simp only [List.foldr_cons, foldr_content, List.append_nil]
    exact ⟨.unclosed ho ho' hlanguage hbody hbody' hread, .nil, .nil⟩

/-- Alike documents have alike outlines. -/
theorem Alike.outline (h : Alike lines lines') :
    List.Forall₂ NodeAlike (outline lines) (Language.outline lines') :=
  h.grouping.blocks

/-! ### Statements -/

theorem fencedStatements_body (hbody : IsBody body) (hclose : isFence close = true)
    (described : Bool) (language : String) : ∀ fenced,
      fencedStatements described language fenced (body ++ close :: rest) =
        if language == descriptionFence && !described then
          .description (trimmedText (fenced ++ body)) :: statements true rest
        else statements described rest := by
  induction body with
  | nil => simp [fencedStatements, hclose]
  | cons line body ih =>
    obtain ⟨hline, hrest⟩ := List.forall_mem_cons.mp hbody
    intro fenced
    simp [fencedStatements, hline, ih hrest]

theorem fencedStatements_unclosed (hbody : IsBody body) (described : Bool) (language : String) :
    ∀ fenced, fencedStatements described language fenced body = [] := by
  induction body with
  | nil => simp [fencedStatements]
  | cons line body ih =>
    obtain ⟨hline, hrest⟩ := List.forall_mem_cons.mp hbody
    intro fenced
    simp [fencedStatements, hline, ih hrest]

/-- Alike documents say the same. -/
theorem Alike.statements_eq (h : Alike lines lines') :
    ∀ described, statements described lines = statements described lines' := by
  induction h with
  | nil => exact fun _ => rfl
  | line hl hl' hread _ ih =>
    exact fun described => by simp [statements, hl, hl', hread.statement, ih]
  | @fence o o' c c' body body' rest rest' ho ho' hlanguage hbody hbody' hc hc' hread _ ih =>
    intro described
    simp only [statements, ho, ho', if_true, fencedStatements_body hbody hc,
      fencedStatements_body hbody' hc', hlanguage, ih]
    split_ifs with hdescribed
    · have hlang : fenceLanguage o = descriptionFence := by
        rw [hlanguage]
        simpa using (Bool.and_eq_true_iff.mp hdescribed).1
      rw [hread (by simp [describedLanguages, hlang])]
    · rfl
  | unclosed ho ho' _ hbody hbody' _ =>
    intro described
    simp [statements, ho, ho', fencedStatements_unclosed, hbody, hbody']

end NoteGraph.Language
