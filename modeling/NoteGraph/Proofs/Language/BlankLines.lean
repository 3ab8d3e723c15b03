import NoteGraph.Proofs.Language.Scanning

/-!
# Blank lines

A document keeps its meaning when the blank lines outside of its fences are dropped. Every scanner
reads what is left as it reads the document: each either passes over a blank line or hands it on to
one that does. The fences stay as they are, so all flags for being inside a fence agree.
-/

namespace NoteGraph.Language

open Text

variable {body rest : List String} {line close : String}

/-- A document without the blank lines outside of its fences; `inFence` tells whether it starts
inside one. -/
def dropBlanks (inFence : Bool) : List String → List String
  | [] => []
  | line :: rest =>
    if !inFence && isBlankLine line then dropBlanks false rest
    else line :: dropBlanks (inFence != isFence line) rest

/-! ### Blank lines -/

theorem isFence_of_isBlankLine (h : isBlankLine line = true) : isFence line = false := by
  by_contra hfence
  rw [isBlankLine_of_isFence (eq_true_of_ne_false hfence)] at h
  cases h

theorem trimLeft_of_isBlankLine (h : isBlankLine line = true) : trimLeft line.toList = [] := by
  rw [trimLeft, List.dropWhile_eq_nil_iff]
  simpa [isBlankLine] using h

/-- A blank line is neither a heading nor an item of a mindmap, and names no currency. -/
theorem blank_reads_nothing (h : isBlankLine line = true) : isMindmapHeading line = false ∧
    isMindmapItem line = false ∧ currencyOfLine? line = none := by
  have htrim := trimLeft_of_isBlankLine h
  refine ⟨?_, ?_, ?_⟩
  · simp [isMindmapHeading, MindmapHeading.ofLine?, htrim, after?]
  · simp [isMindmapItem, MindmapItem.ofLine?, htrim, after?]
  · simp [currencyOfLine?, htrim]

theorem isBlankLine_of_isMindmapHeading (h : isMindmapHeading line = true) :
    isBlankLine line = false := by
  by_contra hblank
  rw [(blank_reads_nothing (eq_true_of_ne_false hblank)).1] at h
  cases h

/-! ### Dropping them -/

theorem dropBlanks_blank (h : isBlankLine line = true) (rest : List String) :
    dropBlanks false (line :: rest) = dropBlanks false rest := by
  simp [dropBlanks, h]

theorem dropBlanks_line (h : isBlankLine line = false) (rest : List String) :
    dropBlanks false (line :: rest) = line :: dropBlanks (isFence line) rest := by
  simp [dropBlanks, h]

theorem dropBlanks_inside (line : String) (rest : List String) :
    dropBlanks true (line :: rest) = line :: dropBlanks (!isFence line) rest := by
  simp [dropBlanks]

theorem dropBlanks_unclosed (hbody : IsBody body) : dropBlanks true body = body := by
  induction body with
  | nil => rfl
  | cons line body ih =>
    obtain ⟨hline, hrest⟩ := List.forall_mem_cons.mp hbody
    rw [dropBlanks_inside, hline, Bool.not_false, ih hrest]

theorem dropBlanks_body (hbody : IsBody body) (hclose : isFence close = true) :
    dropBlanks true (body ++ close :: rest) = body ++ close :: dropBlanks false rest := by
  induction body with
  | nil => rw [List.nil_append, dropBlanks_inside, hclose, Bool.not_true, List.nil_append]
  | cons line body ih =>
    obtain ⟨hline, hrest⟩ := List.forall_mem_cons.mp hbody
    rw [List.cons_append, dropBlanks_inside, hline, Bool.not_false, ih hrest, List.cons_append]

theorem dropBlanks_open (hopen : isFence line = true) (rest : List String) :
    dropBlanks false (line :: rest) = line :: dropBlanks true rest := by
  rw [dropBlanks_line (isBlankLine_of_isFence hopen), hopen]

/-- Behind lines whose fences are all closed a document goes on outside of fences. -/
theorem dropBlanks_append {front : List String} (hfront : Even (front.countP isFence))
    (rest : List String) :
    dropBlanks false (front ++ rest) = dropBlanks false front ++ dropBlanks false rest := by
  induction front, hfront using closedInduction with
  | nil => rfl
  | line l front _ _ hl ih =>
    cases hblank : isBlankLine l with
    | true => rw [List.cons_append, dropBlanks_blank hblank, dropBlanks_blank hblank, ih]
    | false =>
      rw [List.cons_append, dropBlanks_line hblank, dropBlanks_line hblank, hl, ih,
        List.cons_append]
  | fence o body c front _ _ ho hbody hc ih =>
    rw [List.cons_append, List.append_assoc, List.cons_append, dropBlanks_open ho,
      dropBlanks_open ho, dropBlanks_body hbody hc, dropBlanks_body hbody hc, ih, List.cons_append,
      List.append_assoc, List.cons_append]

/-- Blank lines behind lines whose fences are all closed are dropped. -/
theorem dropBlanks_insert {front blanks : List String} (hfront : Even (front.countP isFence))
    (hblanks : ∀ line ∈ blanks, isBlankLine line = true) (rest : List String) :
    dropBlanks false (front ++ (blanks ++ rest)) = dropBlanks false (front ++ rest) := by
  have hnone : dropBlanks false (blanks ++ rest) = dropBlanks false rest := by
    induction blanks with
    | nil => rfl
    | cons line blanks ih =>
      obtain ⟨hline, hblanks⟩ := List.forall_mem_cons.mp hblanks
      rw [List.cons_append, dropBlanks_blank hline, ih hblanks]
  rw [dropBlanks_append hfront, dropBlanks_append hfront, hnone]

/-! ### Scanners -/

/-- The description of the graph is the same, and the kept lines differ in blank lines only. A
description fence that is not closed leaves its lines behind, and blank ones among them now stand
outside of fences. -/
theorem cutDescription_dropBlanks (lines : List String) :
    dropBlanks false (cutDescription false (dropBlanks false lines)).1 =
        dropBlanks false (cutDescription false lines).1 ∧
      (cutDescription false (dropBlanks false lines)).2 = (cutDescription false lines).2 := by
  induction lines using fencedInduction with
  | nil => exact ⟨rfl, rfl⟩
  | line l rest hl ih =>
    rw [cutDescription_line hl]
    cases hblank : isBlankLine l with
    | true => rwa [dropBlanks_blank hblank, dropBlanks_blank hblank]
    | false =>
      rw [dropBlanks_line hblank, hl, cutDescription_line hl, dropBlanks_line hblank,
        dropBlanks_line hblank, hl]
      exact ⟨congrArg (l :: ·) ih.1, ih.2⟩
  | fence o body c rest ho hbody hc ih =>
    rw [dropBlanks_open ho, dropBlanks_body hbody hc]
    by_cases hgraph : fenceLanguage o = graphDescriptionFence
    · simp only [cutDescription, ho, hgraph, Bool.not_false, Bool.and_true, beq_self_eq_true,
        if_true, captureDescription_body hbody hc]
      exact ⟨ih.1, trivial⟩
    · simp only [cutDescription, ho, Bool.not_false, Bool.and_true, beq_iff_eq, hgraph, if_false,
        Bool.true_and, Bool.false_bne, cutDescription_body hbody hc, dropBlanks_open ho,
        dropBlanks_body hbody hc]
      exact ⟨congrArg (fun kept => o :: (body ++ c :: kept)) ih.1, ih.2⟩
  | unclosed o body ho hbody =>
    rw [dropBlanks_open ho, dropBlanks_unclosed hbody]
    exact ⟨rfl, rfl⟩

theorem findCurrency?_dropBlanks (lines : List String) :
    ∀ inFence, findCurrency? inFence (dropBlanks inFence lines) = findCurrency? inFence lines := by
  induction lines with
  | nil => exact fun _ => rfl
  | cons line rest ih =>
    intro inFence
    cases inFence with
    | true =>
      rw [dropBlanks_inside, findCurrency?, findCurrency?]
      cases isFence line <;> simp [ih]
    | false =>
      cases hblank : isBlankLine line with
      | true =>
        rw [dropBlanks_blank hblank, ih, findCurrency?, isFence_of_isBlankLine hblank,
          (blank_reads_nothing hblank).2.2]
        rfl
      | false =>
        rw [dropBlanks_line hblank, findCurrency?, findCurrency?]
        cases isFence line <;> simp [ih]

/-- The items after a mindmap heading are the same. -/
theorem takeItems_dropBlanks (lines : List String) : takeItems (dropBlanks false lines) =
    ((takeItems lines).1, dropBlanks false (takeItems lines).2) := by
  induction lines with
  | nil => rfl
  | cons line rest ih =>
    cases hblank : isBlankLine line with
    | true => rw [dropBlanks_blank hblank, ih, takeItems, if_pos hblank]
    | false =>
      rw [dropBlanks_line hblank, takeItems, takeItems, hblank]
      cases hitem : isMindmapItem line with
      | true =>
        have hfence : isFence line = false := by
          by_contra h
          rw [isMindmapItem_of_isFence (eq_true_of_ne_false h)] at hitem
          cases hitem
        simp [hfence, ih]
      | false => simp [dropBlanks_line hblank]

/-- Lines are cut at the same mindmap heading, which stands outside of fences. -/
theorem takePlain_dropBlanks (lines : List String) :
    ∀ inFence, takePlain inFence (dropBlanks inFence lines) =
      (dropBlanks inFence (takePlain inFence lines).1,
        dropBlanks false (takePlain inFence lines).2) := by
  induction lines with
  | nil => exact fun _ => rfl
  | cons line rest ih =>
    intro inFence
    cases inFence with
    | true =>
      rw [dropBlanks_inside, takePlain, takePlain]
      simp [ih, dropBlanks_inside]
    | false =>
      cases hblank : isBlankLine line with
      | true =>
        have hheading := (blank_reads_nothing hblank).1
        rw [dropBlanks_blank hblank, ih, takePlain_line hheading, isFence_of_isBlankLine hblank,
          dropBlanks_blank hblank]
      | false =>
        rw [dropBlanks_line hblank]
        cases hheading : isMindmapHeading line with
        | true => simp [takePlain, hheading, dropBlanks, hblank]
        | false =>
          rw [takePlain_line hheading, takePlain_line hheading, ih, dropBlanks_line hblank]

theorem entries_dropBlanks (lines : List String) :
    ∀ inFence, entries inFence (dropBlanks inFence lines) = entries inFence lines := by
  induction lines with
  | nil => exact fun _ => rfl
  | cons line rest ih =>
    intro inFence
    cases inFence with
    | true => simp only [dropBlanks_inside, entries, if_true, ih]
    | false =>
      cases hblank : isBlankLine line with
      | true =>
        rw [dropBlanks_blank hblank, ih, entries, isBlankLine_iff.mp hblank]
        rfl
      | false =>
        rw [dropBlanks_line hblank, entries, entries]
        cases hkind : LineKind.ofLine line with
        | fence => simp [isFence_iff.mpr hkind, ih]
        | blank =>
          rw [isBlankLine_iff.mpr hkind] at hblank
          cases hblank
        | _ =>
          have hfence : isFence line = false := by
            by_contra h
            rw [isFence_iff.mp (eq_true_of_ne_false h)] at hkind
            cases hkind
          simp [hfence, ih]

/-- The outline is the same. -/
theorem outline_dropBlanks (lines : List String) :
    outline (dropBlanks false lines) = outline lines := by
  rw [outline, outline, entries_dropBlanks]

end NoteGraph.Language
