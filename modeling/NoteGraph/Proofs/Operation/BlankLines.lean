import NoteGraph.Proofs.Language.BlankLines
import NoteGraph.Proofs.Operation.OfPassages
import NoteGraph.Proofs.Operation.SingleLines

/-!
# Blank lines and operations

The passages, the description and the currency of a document do not change when the blank lines
outside of its fences are dropped, so its operations do not either. A block of blank lines alone,
which may stand in front of a mindmap, has no passage.
-/

namespace NoteGraph

open NoteGraph.Language NoteGraph.Text

/-! ### Passages -/

/-- The lines up to the next mindmap heading make node blocks, if there are any such lines. -/
theorem passagesOfLines_eq (lines : List String) : passagesOfLines lines =
    (outline (takePlain false lines).1).map .node ++ passagesOfLines (takePlain false lines).2 := by
  cases lines with
  | nil => rfl
  | cons line rest =>
    cases hheading : isMindmapHeading line with
    | true => simp [takePlain, hheading, outline, entries, groupEntries]
    | false =>
      rw [passagesOfLines, splitBlocks_cons, hheading, if_neg Bool.false_ne_true]
      rfl

theorem passagesOfLines_mindmap {line : String} (h : isMindmapHeading line = true)
    (rest : List String) : passagesOfLines (line :: rest) =
      .mindmap (line :: (takeItems rest).1) :: passagesOfLines (takeItems rest).2 := by
  rw [passagesOfLines, splitBlocks_cons, if_pos h]
  rfl

/-- The passages are the same. -/
theorem passagesOfLines_dropBlanks :
    ∀ lines, passagesOfLines (dropBlanks false lines) = passagesOfLines lines
  | [] => rfl
  | line :: rest => by
    cases hheading : isMindmapHeading line with
    | true =>
      have hfence : isFence line = false := by
        by_contra h
        rw [isMindmapHeading_of_isFence (eq_true_of_ne_false h)] at hheading
        cases hheading
      rw [dropBlanks_line (isBlankLine_of_isMindmapHeading hheading), hfence,
        passagesOfLines_mindmap hheading, passagesOfLines_mindmap hheading, takeItems_dropBlanks,
        passagesOfLines_dropBlanks (takeItems rest).2]
    | false =>
      rw [passagesOfLines_eq, takePlain_dropBlanks, outline_dropBlanks,
        passagesOfLines_dropBlanks (takePlain false (line :: rest)).2,
        ← passagesOfLines_eq (line :: rest)]
termination_by lines => lines.length
decreasing_by
  · exact takePlain_length_lt hheading
  · exact Nat.lt_succ_of_le (takeItems_length_le rest)

/-! ### Operations -/

/-- Lines that differ in blank ones outside of fences have the same operations. -/
theorem operationsOfLines_eq_of_dropBlanks {lines lines' : List String}
    (h : dropBlanks false lines = dropBlanks false lines') (s : TextSession) :
    operationsOfLines s lines = operationsOfLines s lines' := by
  obtain ⟨hkept, hdescription⟩ := cutDescription_dropBlanks lines
  obtain ⟨hkept', hdescription'⟩ := cutDescription_dropBlanks lines'
  rw [h] at hkept hdescription
  replace hkept := hkept.symm.trans hkept'
  replace hdescription := hdescription.symm.trans hdescription'
  have hpassages : passagesOfLines (cutDescription false lines).1 =
      passagesOfLines (cutDescription false lines').1 := by
    rw [← passagesOfLines_dropBlanks, hkept, passagesOfLines_dropBlanks]
  have hcurrency : findCurrency? false (cutDescription false lines).1 =
      findCurrency? false (cutDescription false lines').1 := by
    rw [← findCurrency?_dropBlanks, hkept, findCurrency?_dropBlanks]
  rw [operationsOfLines_eq, operationsOfLines_eq, hpassages, closingOperations, closingOperations,
    hdescription, hcurrency]

/-! ### Texts that are joined from lines -/

theorem isBlankLine_chopLine {line : String} (h : isBlankLine line = true) :
    isBlankLine (chopLine line) = true := by
  rcases eq_chopLine_or line with heq | heq
  · rwa [← heq]
  · rw [heq, isBlankLine, String.toList_append, List.all_append, Bool.and_eq_true] at h
    exact h.1

theorem isBlankLine_of_mem_chopped {lines : List String}
    (hlines : ∀ line ∈ lines, isBlankLine line = true) :
    ∀ line ∈ chopped lines, isBlankLine line = true := by
  induction lines with
  | nil => exact hlines
  | cons line rest ih =>
    obtain ⟨hline, hrest⟩ := List.forall_mem_cons.mp hlines
    cases rest with
    | nil => exact hlines
    | cons next rest =>
      exact List.forall_mem_cons.mpr ⟨isBlankLine_chopLine hline, ih hrest⟩

/-- The operations of a text that is joined from lines. No lines make an empty text, which has one
empty line. -/
theorem operationsIn_intercalate {lines : List String}
    (hlines : ∀ line ∈ lines, IsLine line.toList) (s : TextSession) :
    operationsIn s ("\n".intercalate lines) = operationsOfLines s (chopped lines) := by
  rw [operationsIn_eq]
  by_cases hne : lines = []
  · subst hne
    have hempty : linesOfText ("\n".intercalate []) = [""] := by decide +kernel
    rw [hempty]
    exact operationsOfLines_eq_of_dropBlanks (by decide +kernel) s
  · rw [linesOfText_intercalate hlines hne]

/-- The last line may lose its carriage return too, if that does not change it. -/
theorem operationsOfLines_chopped {lines : List String}
    (hlines : ∀ line ∈ lines, IsLine line.toList) (heven : Even (lines.countP isFence))
    (hreturn : ∀ line, lines.getLast? = some (line ++ "\r") → ¬ChangedBy "\r" line)
    (s : TextSession) :
    operationsOfLines s (chopped lines) = operationsOfLines s (lines.map chopLine) := by
  rcases lines.eq_nil_or_concat with rfl | ⟨front, last, rfl⟩
  · rfl
  rw [List.concat_eq_append] at hlines heven hreturn ⊢
  rw [chopped_append front (List.cons_ne_nil _ _), List.map_append, chopped, List.map_singleton]
  rcases eq_chopLine_or last with heq | heq
  · rw [← heq]
  · obtain ⟨hfront, hlast⟩ := List.forall_mem_append.mp hlines
    have hlast : IsLine (chopLine last).toList := isLine_chopLine (hlast _ List.mem_cons_self)
    have hsame : SameReading (chopLine last ++ "\r") (chopLine last) := by
      apply SameReading.append hlast isTail_return.tells
      apply hreturn
      rw [List.getLast?_concat, ← heq]
    rw [← heq] at hsame
    refine operationsOfLines_congr (.last hsame ?_) s
    rwa [List.countP_append, countP_map_chopLine hfront, ← List.countP_append]

/-! ### Blank lines in texts -/

/-- A text and the text with blank lines put in behind lines whose fences are all closed. Blank
lines at the end may follow a carriage return, which then is no more than part of a line end: `P`
holds of what the last line was before it. -/
inductive BlanksInserted (P : String → Prop) : String → String → Prop where
  | insert {front blanks rest : List String}
      (hlines : ∀ line ∈ front ++ (blanks ++ rest), '\n' ∉ line.toList)
      (hfront : Even (front.countP isFence)) (hblanks : ∀ line ∈ blanks, isBlankLine line = true)
      (hreturn : rest = [] → ∀ line, front.getLast? = some (line ++ "\r") → P line) :
      BlanksInserted P ("\n".intercalate (front ++ rest))
        ("\n".intercalate (front ++ (blanks ++ rest)))

theorem BlanksInserted.operationsIn_eq {P : String → Prop} {text text' : String}
    (h : BlanksInserted P text text')
    (hP : ∀ line, IsLine line.toList → P line → ¬ChangedBy "\r" line) (s : TextSession) :
    operationsIn s text' = operationsIn s text := by
  obtain ⟨hlines, hfront, hblanks, hreturn⟩ := h
  rename_i front blanks rest
  have hkept : ∀ line ∈ front ++ rest, IsLine line.toList := by
    simp only [List.forall_mem_append] at hlines ⊢
    exact ⟨hlines.1, hlines.2.2⟩
  have hfrontLines : ∀ line ∈ front, IsLine line.toList := (List.forall_mem_append.mp hkept).1
  have hfront' : Even ((front.map chopLine).countP isFence) := by
    rwa [countP_map_chopLine hfrontLines]
  rw [operationsIn_intercalate hlines, operationsIn_intercalate hkept]
  by_cases hrest : rest = []
  · subst hrest
    by_cases hnone : blanks = []
    · rw [hnone, List.nil_append]
    · rw [List.append_nil, List.append_nil, chopped_append front hnone,
        operationsOfLines_chopped hfrontLines hfront]
      · have hdrop := dropBlanks_insert hfront' (isBlankLine_of_mem_chopped hblanks) []
        rw [List.append_nil, List.append_nil] at hdrop
        exact operationsOfLines_eq_of_dropBlanks hdrop s
      · intro line hlast
        refine hP line ?_ (hreturn rfl line hlast)
        have hline := isLine_chopLine (hfrontLines _ (List.mem_of_getLast? hlast))
        rwa [chopLine_append_return] at hline
  · have hne : blanks ++ rest ≠ [] := fun hnil => hrest (List.append_eq_nil_iff.mp hnil).2
    rw [chopped_append front hne, chopped_append front hrest, chopped_append blanks hrest]
    refine operationsOfLines_eq_of_dropBlanks (dropBlanks_insert hfront' ?_ _) s
    exact List.forall_mem_map.mpr fun line hline => isBlankLine_chopLine (hblanks line hline)

/-- Behind a heading: an empty line makes the carriage return part of a line end. -/
theorem operationsOfLines_append_return {P : String → Prop} {heading line : String}
    (h : ∀ text text', BlanksInserted P text text' →
      ∀ s, operationsIn s text' = operationsIn s text)
    (hheading : IsLine heading.toList) (hchop : chopLine heading = heading)
    (hopen : isFence heading = false) (hline : IsLine line.toList) (hP : P line)
    (hfence : isFence line = false) (s : TextSession) :
    operationsOfLines s [heading, line] = operationsOfLines s [heading, line ++ "\r"] := by
  have hlines : ∀ l ∈ [heading, line ++ "\r", ""], IsLine l.toList := by
    have hreturn : IsLine (line ++ "\r").toList := by
      rw [String.toList_append]
      exact hline.append isTail_return
    simp only [List.forall_mem_cons]
    exact ⟨hheading, hreturn, by simp [IsLine], by simp⟩
  have hends : Even ([heading, line ++ "\r"].countP isFence) := by
    simp [hopen, isFence_append hline isTail_return, hfence]
  have hfences : Even ([heading, line].countP isFence) := by
    simp [hopen, hfence]
  have hinsert : BlanksInserted P ("\n".intercalate ([heading, line ++ "\r"] ++ []))
      ("\n".intercalate ([heading, line ++ "\r"] ++ ([""] ++ []))) := by
    refine .insert hlines hends (by simp [isBlankLine]) fun _ last hlast => ?_
    have heq : line ++ "\r" = last ++ "\r" := by simpa using hlast
    rwa [← chopLine_append_return last, ← heq, chopLine_append_return]
  have heq : operationsIn s ("\n".intercalate [heading, line ++ "\r", ""]) =
      operationsIn s ("\n".intercalate [heading, line ++ "\r"]) := h _ _ hinsert s
  rw [operationsIn_intercalate hlines, operationsIn_intercalate fun l hl =>
    hlines l (List.mem_append_left [""] hl)] at heq
  calc operationsOfLines s [heading, line]
    _ = operationsOfLines s ([heading, line] ++ ([""] ++ [])) := by
      refine operationsOfLines_eq_of_dropBlanks ?_ s
      rw [dropBlanks_insert hfences (by simp [isBlankLine]), List.append_nil]
    _ = operationsOfLines s (chopped [heading, line ++ "\r", ""]) := by
      simp [chopped, hchop, chopLine_append_return]
    _ = operationsOfLines s [heading, line ++ "\r"] := by
      rw [heq]
      simp [chopped, hchop]

/-- **Blank lines outside of fences** do not matter, but for a carriage return at the end of a text,
which blank lines behind it make part of a line end. Whichever lines `P` picks: all texts that do
not end in a carriage return, or have one behind a line that `P` picks, have the same operations
with blank lines put in and leave the session the same, if and only if a carriage return changes
none of these lines. -/
theorem operationsIn_insert_blanks_iff (P : String → Prop) :
    (∀ text text', BlanksInserted P text text' →
        ∀ s, operationsIn s text' = operationsIn s text) ↔
      ∀ line, '\n' ∉ line.toList → P line → ¬ChangedBy "\r" line := by
  constructor
  · intro h line hline hP
    cases hfence : isFence line with
    | true => exact not_changedBy_of_opening hline isTail_return (.inl hfence)
    | false =>
      have hops : ∀ {heading : String}, IsLine heading.toList → chopLine heading = heading →
          isFence heading = false → (operationsOfLines .empty [heading, line]).1 =
            (operationsOfLines .empty [heading, line ++ "\r"]).1 := by
        intro heading hheading hchop hopen
        rw [operationsOfLines_append_return h hheading hchop hopen hline hP hfence]
      apply not_changedBy hline isTail_return
      · exact hops (by simp [IsLine]) (by decide +kernel) (by decide +kernel)
      · exact hops (by simp [IsLine]) (by decide +kernel) (by decide +kernel)
  · exact fun hP text text' h => h.operationsIn_eq hP

/-- An empty line behind a text that ends in a colon and a carriage return: the return was taken for
the value of an attribute. -/
theorem operationsOf_blank_behind_return :
    BlanksInserted (fun _ => True) "# a\nmass:\r" "# a\nmass:\r\n" ∧
      operationsOf "# a\nmass:\r" ≠ operationsOf "# a\nmass:\r\n" := by
  refine ⟨?_, by decide +kernel⟩
  have hinsert : BlanksInserted (fun _ => True)
      ("\n".intercalate (["# a", "mass:\r"] ++ []))
      ("\n".intercalate (["# a", "mass:\r"] ++ ([""] ++ []))) :=
    .insert (by decide +kernel) (by decide +kernel) (by decide +kernel) fun _ _ _ => trivial
  exact hinsert

/-- Blank lines may stand anywhere outside of fences in a text that does not end in a carriage
return. -/
theorem operationsIn_insert_blanks {text text' : String}
    (h : BlanksInserted (fun _ => False) text text') (s : TextSession) :
    operationsIn s text' = operationsIn s text :=
  h.operationsIn_eq (fun _ _ hP => hP.elim) s

/-- Between the heading of a mindmap and its item, behind a fence that holds a blank line. -/
example : operationsOf "```\n\n```\n# a <b>\n\n \t\r\n- c" =
    operationsOf "```\n\n```\n# a <b>\n- c" := by
  decide +kernel

end NoteGraph
