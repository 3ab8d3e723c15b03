import NoteGraph.Proofs.Language.Trailing

/-!
# Lines of a text

A text that is joined from lines has these lines again, except that a carriage return before a
line end is not part of the line. It is a blank at the end of the line, so fence lines stay
fence lines of the same language.
-/

namespace NoteGraph.Language

open Text

/-- A line without the carriage return that may end it. -/
def chop : List Char → List Char
  | [] => []
  | ['\r'] => []
  | c :: rest => c :: chop rest

theorem chop_cons {c : Char} {rest : List Char} (h : rest ≠ [] ∨ c ≠ '\r') :
    chop (c :: rest) = c :: chop rest := by
  rw [chop]
  rintro rfl rfl
  simp at h

theorem eq_chop_or (line : List Char) : line = chop line ∨ line = chop line ++ ['\r'] := by
  induction line with
  | nil => exact .inl rfl
  | cons c rest ih =>
    by_cases h : rest ≠ [] ∨ c ≠ '\r'
    · rw [chop_cons h]
      exact ih.imp (congrArg (c :: ·)) (congrArg (c :: ·))
    · simp only [not_or, not_not] at h
      obtain ⟨rfl, rfl⟩ := h
      exact .inr rfl

theorem chop_append_return (line : List Char) : chop (line ++ ['\r']) = line := by
  induction line with
  | nil => rfl
  | cons c line ih => rw [List.cons_append, chop_cons (by simp), ih]

theorem dropReturns_append {line : List Char} (hline : IsLine line) (rest : List Char) :
    linesOfText.dropReturns (line ++ '\n' :: rest) =
      chop line ++ '\n' :: linesOfText.dropReturns rest := by
  induction line with
  | nil =>
    rw [List.nil_append, linesOfText.dropReturns]
    · rfl
    · intro more heq
      simp at heq
  | cons c line ih =>
    have hrest : IsLine line := hline.suffix (List.suffix_cons c line)
    by_cases h : line ≠ [] ∨ c ≠ '\r'
    · rw [chop_cons h, List.cons_append, List.cons_append, ← ih hrest, linesOfText.dropReturns]
      rintro more rfl heq
      cases line with
      | nil => simp at h
      | cons d line =>
        obtain ⟨rfl, -⟩ := List.cons.inj heq
        exact hrest List.mem_cons_self
    · simp only [not_or, not_not] at h
      obtain ⟨rfl, rfl⟩ := h
      rfl

theorem dropReturns_of_isLine {line : List Char} (hline : IsLine line) :
    linesOfText.dropReturns line = line := by
  induction line with
  | nil => rfl
  | cons c line ih =>
    have hrest : IsLine line := hline.suffix (List.suffix_cons c line)
    rw [linesOfText.dropReturns, ih hrest]
    rintro more rfl rfl
    exact hrest List.mem_cons_self

/-- The line that is left when a text is read of one that a line end follows. -/
def chopLine (line : String) : String := String.ofList (chop line.toList)

theorem isTail_return : IsTail "\r".toList := by
  simp [IsTail, isBlank]

theorem eq_chopLine_or (line : String) : line = chopLine line ∨ line = chopLine line ++ "\r" := by
  have hreturn : "\r".toList = ['\r'] := rfl
  rw [← String.toList_inj, ← String.toList_inj, String.toList_append, chopLine,
    String.toList_ofList, hreturn]
  exact eq_chop_or line.toList

theorem chopLine_append_return (line : String) : chopLine (line ++ "\r") = line := by
  have hreturn : "\r".toList = ['\r'] := rfl
  rw [chopLine, String.toList_append, hreturn, chop_append_return, String.ofList_toList]

/-- The lines of a document as a text holds them: all but the last without the carriage return
that may end them. -/
def chopped : List String → List String
  | [] => []
  | [last] => [last]
  | line :: rest => chopLine line :: chopped rest

theorem isLine_chop {line : List Char} (hline : IsLine line) : IsLine (chop line) := by
  intro hmem
  rcases eq_chop_or line with h | h
  · exact hline (h ▸ hmem)
  · exact hline (h ▸ List.mem_append_left _ hmem)

theorem isLine_chopLine {line : String} (hline : IsLine line.toList) :
    IsLine (chopLine line).toList := by
  rw [chopLine, String.toList_ofList]
  exact isLine_chop hline

/-- A text has the lines that it is joined from. -/
theorem linesOfText_intercalate {lines : List String}
    (hlines : ∀ line ∈ lines, IsLine line.toList) (hne : lines ≠ []) :
    linesOfText ("\n".intercalate lines) = chopped lines := by
  have hsplit : ∀ {line : List Char}, IsLine line → ∀ c ∈ line, (c == '\n') = false :=
    fun hline c hc => by simpa using fun heq : c = '\n' => hline (heq ▸ hc)
  rw [linesOfText, String.toList_intercalate]
  change ((linesOfText.dropReturns (['\n'].intercalate (lines.map String.toList))).splitOnP
    (· == '\n')).map String.ofList = chopped lines
  induction lines with
  | nil => exact absurd rfl hne
  | cons line rest ih =>
    obtain ⟨hline, hrest⟩ := List.forall_mem_cons.mp hlines
    cases rest with
    | nil =>
      rw [List.map_cons, List.map_nil, List.intercalate_singleton, dropReturns_of_isLine hline,
        List.splitOnP_eq_singleton (hsplit hline), List.map_singleton, String.ofList_toList,
        chopped]
    | cons next rest =>
      have hchop := hsplit (isLine_chop hline)
      rw [List.map_cons, List.map_cons, List.intercalate_cons_cons, List.append_assoc,
        List.singleton_append, dropReturns_append hline,
        List.splitOnP_append_cons_of_forall_mem hchop _ (beq_self_eq_true '\n'), ← List.map_cons,
        List.map_cons, ih hrest (List.cons_ne_nil _ _)]
      rfl

theorem isLine_of_mem_splitOn {all cs : List Char} (h : cs ∈ all.splitOn '\n') : IsLine cs := by
  induction all generalizing cs with
  | nil => simp_all [IsLine]
  | cons c rest ih =>
    rw [List.splitOn_cons_eq_if_modifyHead] at h
    by_cases hc : (c == '\n') = true
    · rw [if_pos hc] at h
      rcases List.mem_cons.mp h with rfl | h
      · simp [IsLine]
      · exact ih h
    · rw [if_neg hc] at h
      -- the character stands in front of the first of the later lines
      cases hrest : rest.splitOn '\n' with
      | nil => simp at hrest
      | cons first more =>
        rw [hrest] at h ih
        rcases List.mem_cons.mp h with rfl | h
        · have hfirst : IsLine first := ih List.mem_cons_self
          simp [IsLine] at hc hfirst ⊢
          exact ⟨fun h => hc h.symm, hfirst⟩
        · exact ih (List.mem_cons_of_mem _ h)

/-- The lines of a text hold no line end. -/
theorem isLine_of_mem_linesOfText {text line : String} (h : line ∈ linesOfText text) :
    IsLine line.toList := by
  obtain ⟨cs, hcs, rfl⟩ := List.mem_map.mp h
  rw [String.toList_ofList]
  exact isLine_of_mem_splitOn hcs

theorem chopped_append (front : List String) {rest : List String} (hne : rest ≠ []) :
    chopped (front ++ rest) = front.map chopLine ++ chopped rest := by
  induction front with
  | nil => rfl
  | cons line front ih =>
    rw [List.cons_append, chopped, ih, List.map_cons, List.cons_append]
    simp [hne]

/-! ### Fence lines -/

theorem isFence_chopLine {line : String} (hline : IsLine line.toList) :
    isFence (chopLine line) = isFence line ∧
      fenceLanguage (chopLine line) = fenceLanguage line := by
  rcases eq_chopLine_or line with h | h
  · rw [← h]
    exact ⟨rfl, rfl⟩
  · have hchop := isLine_chopLine hline
    constructor
    · conv_rhs => rw [h, isFence_append hchop isTail_return]
    · conv_rhs => rw [h, fenceLanguage_append hchop isTail_return]

theorem exists_chopped_cons {line : String} (hline : IsLine line.toList) (rest : List String) :
    ∃ line' rest', chopped (line :: rest) = line' :: rest' ∧ isFence line' = isFence line := by
  cases rest with
  | nil => exact ⟨line, [], rfl, rfl⟩
  | cons next rest => exact ⟨chopLine line, _, rfl, (isFence_chopLine hline).1⟩

theorem isBody_map_chopLine {body : List String} (hlines : ∀ line ∈ body, IsLine line.toList)
    (hbody : IsBody body) : IsBody (body.map chopLine) := by
  intro line hmem
  obtain ⟨line, hline, rfl⟩ := List.mem_map.mp hmem
  exact (isFence_chopLine (hlines line hline)).1.trans (hbody line hline)

theorem countP_map_chopLine {lines : List String}
    (hlines : ∀ line ∈ lines, IsLine line.toList) :
    (lines.map chopLine).countP isFence = lines.countP isFence := by
  rw [List.countP_map]
  exact List.countP_congr fun line hline => by
    rw [Function.comp_apply, (isFence_chopLine (hlines line hline)).1]

end NoteGraph.Language
