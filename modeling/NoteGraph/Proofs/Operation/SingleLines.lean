import NoteGraph.Proofs.Language.StopsShort
import NoteGraph.Proofs.Operation.Fences

/-!
# Operations of single lines

Behind the heading of a node or of a mindmap a single line shows what it is: the kinds of the
operations of such a text tell morph headings, attributes, items and currency lines apart from
all others. So blanks that change a line change the operations of a text.
-/

namespace NoteGraph

open NoteGraph.Language NoteGraph.Text

/-- The kinds of operations. -/
def kinds (ops : List Operation) : List String := ops.map fun op => op.action.kind

theorem kinds_append (ops more : List Operation) : kinds (ops ++ more) = kinds ops ++ kinds more :=
  List.map_append

/-! ### Sections -/

/-- The kinds of operations that a statement may have. -/
def statementKinds : Statement → List String
  | .description _ => ["UpdateNodeField"]
  | .attribute _ => ["AddAttribute"]
  | .function _ => ["ApplyFunction"]
  | .relation .. => ["AddNode", "AddRelation"]

theorem kinds_operationsOfAll_subset {α : Type} {names : List String}
    {step : TextSession → α → List Operation × TextSession}
    (hstep : ∀ s a, kinds (step s a).1 ⊆ names) :
    ∀ as s, kinds (operationsOfAll step s as).1 ⊆ names
  | [], _ => List.nil_subset _
  | a :: rest, s => by
    rw [operationsOfAll, kinds_append]
    exact List.append_subset.mpr ⟨hstep s a, kinds_operationsOfAll_subset hstep rest (step s a).2⟩

theorem kinds_targetOperations_subset (node : String) (morph : Option String) (surface : String)
    (s : TextSession) (raw : String) :
    kinds (targetOperations node morph surface s raw).1 ⊆ ["AddNode", "AddRelation"] := by
  unfold targetOperations
  by_cases hempty : (Target.ofRaw raw).nodeId.isEmpty = true
  · rw [if_pos hempty]
    exact List.nil_subset _
  · rw [if_neg hempty]
    cases hdeclare : s.declare (Target.ofRaw raw).nodeId with
    | mk isNew next =>
      -- a placeholder may stand in front of the relation
      cases isNew with
      | true => exact List.Subset.refl _
      | false => exact List.subset_cons_self _ _

theorem kinds_statementOperations_subset (node : String) (morph : Option String) (s : TextSession)
    (statement : Statement) :
    kinds (statementOperations node morph s statement).1 ⊆ statementKinds statement := by
  cases statement with
  | description text => exact List.Subset.refl _
  | «attribute» line => exact List.Subset.refl _
  | function name => exact List.Subset.refl _
  | relation surface targets =>
    exact kinds_operationsOfAll_subset (kinds_targetOperations_subset node morph surface) targets s

theorem ofLine?_eq_attribute_iff {line : String} :
    (∃ parts, Statement.ofLine? line = some (.attribute parts)) ↔
      LineKind.ofLine line = .attribute := by
  constructor
  · rintro ⟨parts, h⟩
    unfold Statement.ofLine? at h
    cases hkind : LineKind.ofLine line <;> simp [hkind] at h ⊢
  · intro hkind
    have hparts : (attributeParts? line.toList).isSome = true := by
      simp only [LineKind.ofLine] at hkind
      split_ifs at hkind with hblank hfence hdeep hmorph hnode hangle hrelation hfunction hparts
      exact hparts
    obtain ⟨⟨name, value⟩, hparts⟩ := Option.isSome_iff_exists.mp hparts
    simp [Statement.ofLine?, hkind, AttributeLine.ofLine?, hparts]

/-- Of the kinds in question a line of a section has at most an attribute. -/
theorem kinds_sectionOperations {line : String} (hline : isFence line = false) (node : String)
    (morph : Option String) (s : TextSession) :
    "AddMorph" ∉ kinds (sectionOperations node morph s [line]).1 ∧
      "SetCurrency" ∉ kinds (sectionOperations node morph s [line]).1 ∧
      ("AddAttribute" ∈ kinds (sectionOperations node morph s [line]).1 ↔
        LineKind.ofLine line = .attribute) := by
  have hstatements : statements false [line] = (Statement.ofLine? line).toList := by
    simp [statements, hline]
  rw [sectionOperations, hstatements, ← ofLine?_eq_attribute_iff]
  cases h : Statement.ofLine? line with
  | none => simp [operationsOfAll, kinds]
  | some statement =>
    have hops : (operationsOfAll (statementOperations node morph) s [statement]).1 =
        (statementOperations node morph s statement).1 := by
      simp [operationsOfAll]
    have hsub := kinds_statementOperations_subset node morph s statement
    rw [Option.toList_some, hops]
    refine ⟨fun hmem => ?_, fun hmem => ?_, fun hmem => ?_, ?_⟩
    · cases statement <;> simpa [statementKinds] using hsub hmem
    · cases statement <;> simpa [statementKinds] using hsub hmem
    · cases statement with
      | «attribute» parts => exact ⟨parts, rfl⟩
      | _ => simpa [statementKinds] using hsub hmem
    · rintro ⟨parts, heq⟩
      obtain rfl := Option.some.inj heq
      simp [statementOperations, kinds, Action.kind]

/-! ### A line behind the heading of a node -/

theorem outline_single {line : String} (hline : isFence line = false)
    (hkind : LineKind.ofLine line ≠ .nodeHeading) : outline ["# a", line] =
      if LineKind.ofLine line = .morphHeading then [⟨"# a", [], [⟨morphName line, []⟩]⟩]
      else [⟨"# a", if LineKind.ofLine line = .blank then [] else [line], []⟩] := by
  have hnode : LineKind.ofLine "# a" = .nodeHeading := by decide +kernel
  have htrimmed : trimmed "# a".toList = "# a" := by decide +kernel
  rw [outline, groupEntries, entries, if_neg Bool.false_ne_true, hnode, entries,
    if_neg Bool.false_ne_true, htrimmed]
  cases h : LineKind.ofLine line with
  | nodeHeading => exact absurd h hkind
  | fence => exact absurd (isFence_iff.mpr h) (ne_true_of_eq_false hline)
  | _ => simp [entries, Grouping.cons]

variable {line : String}

/-- Behind the heading of a node: the node, then what the line does, then its currency. -/
theorem kinds_behind_node (hline : isFence line = false)
    (hkind : LineKind.ofLine line ≠ .nodeHeading) (hmindmap : isMindmapHeading line = false)
    (s : TextSession) : ∃ (node : String) (s' : TextSession),
      kinds (operationsOfLines s ["# a", line]).1 = "AddNode" ::
        ((if LineKind.ofLine line = .morphHeading then ["AddMorph"]
          else kinds (sectionOperations node none s' [line]).1) ++
            (currencyOfLine? line).toList.map fun _ => "SetCurrency") := by
  have hfence : isFence "# a" = false := by decide +kernel
  have hnode : isMindmapHeading "# a" = false := by decide +kernel
  have hcut : cutDescription false ["# a", line] = (["# a", line], none) := by
    simp [cutDescription, hfence, hline]
  have hblocks : splitBlocks ["# a", line] = [.plain ["# a", line]] := by
    simp [splitBlocks_cons, hnode, hfence, takePlain, hmindmap, splitBlocks]
  have hcurrency : findCurrency? false ["# a", line] = currencyOfLine? line := by
    have hnone : currencyOfLine? "# a" = none := by decide +kernel
    simp [findCurrency?, hfence, hline, hnone]
  have hlast : ∀ currency : Option String, kinds (currency.toList.map fun currency =>
        { id := "graph_currency", action := .setCurrency currency : Operation }) =
      currency.toList.map fun _ => "SetCurrency" := by
    intro currency
    cases currency <;> rfl
  let node := (headingOf ⟨"# a", [], []⟩).nodeId
  refine ⟨node, (s.declaring node).declaring node, ?_⟩
  simp only [operationsOfLines, hcut, hblocks, hcurrency, List.map_singleton, Part.ofBlock,
    outline_single hline hkind, kinds_append, hlast]
  by_cases hmorph : LineKind.ofLine line = .morphHeading
  · simp [hmorph, operationsOfAll, partOperations, blockOperations, morphOperations,
      sectionOperations, statements, kinds, Action.kind]
  · have hbody : ∀ node s', sectionOperations node none s'
          (if LineKind.ofLine line = .blank then [] else [line]) =
        sectionOperations node none s' [line] := by
      intro node s'
      by_cases hblank : LineKind.ofLine line = .blank
      · simp [hblank, sectionOperations, statements, hline, Statement.ofLine?]
      · rw [if_neg hblank]
    simp only [if_neg hmorph, operationsOfAll, partOperations, blockOperations, hbody]
    simp [node, kinds, Action.kind, Part.blocks, headingOf]

/-- The kinds of operations that tell a line behind the heading of a node apart. -/
theorem mem_kinds_behind_node (hline : isFence line = false)
    (hkind : LineKind.ofLine line ≠ .nodeHeading) (hmindmap : isMindmapHeading line = false)
    (s : TextSession) :
    ("AddMorph" ∈ kinds (operationsOfLines s ["# a", line]).1 ↔
        LineKind.ofLine line = .morphHeading) ∧
      ("AddAttribute" ∈ kinds (operationsOfLines s ["# a", line]).1 ↔
        LineKind.ofLine line = .attribute) ∧
      ("SetCurrency" ∈ kinds (operationsOfLines s ["# a", line]).1 ↔
        (currencyOfLine? line).isSome = true) := by
  obtain ⟨node, s', heq⟩ := kinds_behind_node hline hkind hmindmap s
  obtain ⟨hmorph, hcurrency, hattribute⟩ := kinds_sectionOperations hline node none s'
  rw [heq]
  by_cases h : LineKind.ofLine line = .morphHeading
  · simp [h, Option.isSome_iff_ne_none]
  · simp [h, hmorph, hcurrency, hattribute, Option.isSome_iff_ne_none]

/-! ### A line behind the heading of a mindmap -/

theorem outline_eq_nil (hkind : LineKind.ofLine line ≠ .nodeHeading) : outline [line] = [] := by
  rw [outline, groupEntries, entries, if_neg Bool.false_ne_true]
  cases h : LineKind.ofLine line with
  | nodeHeading => exact absurd h hkind
  | _ => simp [entries, Grouping.cons]

/-- An item behind the heading of a mindmap is related to the root. -/
theorem mem_kinds_behind_mindmap (hhead : (trimLeft line.toList).head? = some '-')
    (s : TextSession) : "AddRelation" ∈ kinds (operationsOfLines s ["# a <b>", line]).1 ↔
      isMindmapItem line = true := by
  have hother : after? ['#'] (trimLeft line.toList) = none := after?_of_head? hhead (by decide)
  have hfence : isFence line = false := by
    by_contra h
    have hquote := head?_of_isFence (eq_true_of_ne_false h)
    simp [hhead] at hquote
  have hblank : isBlankLine line = false := by
    by_contra h
    simp [trimLeft_eq_nil_iff.mpr (eq_true_of_ne_false h)] at hhead
  have hmindmap : isMindmapHeading line = false := by
    simp [isMindmapHeading, MindmapHeading.ofLine?, hother]
  have hkind : LineKind.ofLine line ≠ .nodeHeading := by
    intro h
    simpa [isNodeHeading, hother] using isNodeHeading_of_kind h
  have hheading : MindmapHeading.ofLine? "# a <b>" = some ⟨"a", "b"⟩ := by decide +kernel
  have hroot : isFence "# a <b>" = false := by decide +kernel
  have hcurrency : currencyOfLine? "# a <b>" = none := by decide +kernel
  have hcut : cutDescription false ["# a <b>", line] = (["# a <b>", line], none) := by
    simp [cutDescription, hroot, hfence]
  cases hitem : isMindmapItem line with
  | true =>
    obtain ⟨item, hsome⟩ := Option.isSome_iff_exists.mp hitem
    have hblocks : splitBlocks ["# a <b>", line] = [.mindmap ["# a <b>", line]] := by
      simp [splitBlocks_cons, isMindmapHeading, hheading, takeItems, hblank, hitem, splitBlocks]
    simp [operationsOfLines, hcut, hblocks, Part.ofBlock, operationsOfAll, partOperations,
      mindmapOperations, hheading, hsome, itemOperations, kinds, Action.kind]
  | false =>
    have hplain : splitBlocks [line] = [.plain [line]] := by
      simp [splitBlocks_cons, hmindmap, takePlain, splitBlocks]
    have hblocks : splitBlocks ["# a <b>", line] = [.mindmap ["# a <b>"], .plain [line]] := by
      simp [splitBlocks_cons "# a <b>", isMindmapHeading, hheading, takeItems, hblank, hitem,
        hplain]
    simp [operationsOfLines, hcut, hblocks, Part.ofBlock, operationsOfAll, partOperations,
      mindmapOperations, hheading, itemOperations, kinds, Action.kind, outline_eq_nil hkind]

/-! ### A line with blanks behind it -/

/-- Blanks that change neither text do not change the line. -/
theorem not_changedBy {tail : String} (hline : IsLine line.toList) (htail : IsTail tail.toList)
    (hnode : (operationsOfLines .empty ["# a", line]).1 =
      (operationsOfLines .empty ["# a", line ++ tail]).1)
    (hmindmap : (operationsOfLines .empty ["# a <b>", line]).1 =
      (operationsOfLines .empty ["# a <b>", line ++ tail]).1) : ¬ChangedBy tail line := by
  by_cases hopen : isFence line = true ∨ isNodeHeading line.toList = true
  · exact not_changedBy_of_opening hline htail hopen
  simp only [not_or, Bool.not_eq_true] at hopen
  have hline₂ : IsLine (line ++ tail).toList := by
    rw [String.toList_append]
    exact hline.append htail
  have hnode₂ : isNodeHeading (line ++ tail).toList = false := by
    rw [String.toList_append, isNodeHeading_append hline htail, hopen.2]
  obtain ⟨hkind, hroot⟩ := not_heading hline hopen.2
  obtain ⟨hkind₂, hroot₂⟩ := not_heading hline₂ hnode₂
  obtain ⟨hmorph, hattribute, hcurrency⟩ :=
    mem_kinds_behind_node hopen.1 hkind hroot .empty
  obtain ⟨hmorph₂, hattribute₂, hcurrency₂⟩ :=
    mem_kinds_behind_node ((isFence_append hline htail).trans hopen.1) hkind₂ hroot₂ .empty
  rw [← hnode] at hmorph₂ hattribute₂ hcurrency₂
  simp only [ChangedBy, not_or, not_not]
  refine ⟨?_, ?_, Bool.eq_iff_iff.mpr (hcurrency₂.symm.trans hcurrency)⟩
  · replace hmorph := hmorph₂.symm.trans hmorph
    replace hattribute := hattribute₂.symm.trans hattribute
    rw [ofLine_eq_kindWith, kindWith_append hline htail, ofLine_eq_kindWith] at hmorph hattribute ⊢
    exact kindWith_eq hmorph hattribute
  · by_cases hitem : isMindmapItem line = true ∨ isMindmapItem (line ++ tail) = true
    · obtain ⟨hhead, hhead₂⟩ :=
        head?_trimLeft_append_tail htail (hitem.imp head?_of_item head?_of_item)
      have hitem := mem_kinds_behind_mindmap hhead .empty
      have hitem₂ := mem_kinds_behind_mindmap hhead₂ .empty
      rw [← hmindmap] at hitem₂
      exact Bool.eq_iff_iff.mpr (hitem₂.symm.trans hitem)
    · simp only [not_or, Bool.not_eq_true] at hitem
      rw [hitem.1, hitem.2]

end NoteGraph
