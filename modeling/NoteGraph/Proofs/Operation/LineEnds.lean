import Mathlib.Data.List.DropRight
import NoteGraph.Proofs.Operation.SingleLines

/-!
# Spaces and tabs at the ends of lines

Texts whose lines differ in the spaces and tabs at their ends, outside of fences, have the same
operations if no line that differs stops short. The other way round a line that stops short has
a text that it differs in.
-/

namespace NoteGraph.Language

open Text

/-! ### Ends of lines -/

/-- A space or a tab. -/
def isSpaceOrTab (c : Char) : Bool := c = ' ' || c = '\t'

/-- A line without the spaces and tabs at its end. -/
def bare (line : String) : String := String.ofList (dropWhileRight isSpaceOrTab line.toList)

theorem exists_eq_bare_append (line : String) :
    ∃ tail : String, line = bare line ++ tail ∧ IsTail tail.toList := by
  refine ⟨String.ofList (line.toList.rtakeWhile isSpaceOrTab), ?_, ?_⟩
  · have hparts : dropWhileRight isSpaceOrTab line.toList ++
        line.toList.rtakeWhile isSpaceOrTab = line.toList :=
      List.rdropWhile_append_rtakeWhile
    rw [bare, ← String.ofList_append, hparts, String.ofList_toList]
  · intro c hc
    rw [String.toList_ofList] at hc
    have hchar := List.mem_rtakeWhile_imp hc
    simp only [isSpaceOrTab, Bool.or_eq_true, decide_eq_true_eq] at hchar
    rcases hchar with rfl | rfl <;> decide

theorem isLine_bare {line : String} (h : IsLine line.toList) : IsLine (bare line).toList := by
  rw [bare, String.toList_ofList]
  have hfront : dropWhileRight isSpaceOrTab line.toList <+: line.toList :=
    List.rdropWhile_prefix _ _
  exact fun hmem => h (hfront.subset hmem)

theorem bare_append_twoSpaces (line : String) : bare (bare line ++ "  ") = bare line := by
  have htwo : ∀ cs : List Char, (cs ++ [' ', ' ']).rdropWhile isSpaceOrTab =
      cs.rdropWhile isSpaceOrTab := by
    intro cs
    rw [← List.singleton_append, ← List.append_assoc, List.rdropWhile_concat_pos _ _ _ rfl,
      List.rdropWhile_concat_pos _ _ _ rfl]
  rw [bare, String.toList_append, bare, String.toList_ofList]
  exact congrArg String.ofList ((htwo _).trans (List.rdropWhile_idempotent _ _))

theorem bare_bare (line : String) : bare (bare line) = bare line := by
  rw [bare, bare, String.toList_ofList]
  exact congrArg String.ofList (List.rdropWhile_idempotent _ _)

variable {P : String → Prop} {l l' : String} {lines lines' : List String}

/-- Lines that may differ in the spaces and tabs at their ends, if `P` holds of what stands before
them. -/
def SameBare (P : String → Prop) (l l' : String) : Prop :=
  l = l' ∨ bare l = bare l' ∧ P (bare l)

/-- Documents whose lines may differ at their ends: outside of fences, in fences that are not
closed, and on the fence lines themselves. -/
inductive DifferAtEnds (P : String → Prop) : List String → List String → Prop where
  | nil : DifferAtEnds P [] []
  | line {l l' : String} {rest rest' : List String} (hl : isFence l = false)
      (h : SameBare P l l') (hrest : DifferAtEnds P rest rest') :
      DifferAtEnds P (l :: rest) (l' :: rest')
  | fence {o o' c c' : String} {body rest rest' : List String} (ho : isFence o = true)
      (hopen : SameBare P o o') (hbody : IsBody body) (hc : isFence c = true)
      (hclose : SameBare P c c') (hrest : DifferAtEnds P rest rest') :
      DifferAtEnds P (o :: (body ++ c :: rest)) (o' :: (body ++ c' :: rest'))
  | unclosed {o o' : String} {body body' : List String} (ho : isFence o = true)
      (hopen : SameBare P o o') (hbody : IsBody body)
      (h : List.Forall₂ (SameBare P) body body') : DifferAtEnds P (o :: body) (o' :: body')

/-! ### Documents that read alike -/

/-- The lines with `P` before their ends do not stop short. -/
def NoneStopsShort (P : String → Prop) : Prop :=
  ∀ line, IsLine line.toList → P (bare line) → ¬StopsShort (bare line)

theorem SameBare.parts (h : SameBare P l l') (hl : IsLine l.toList) :
    l = l' ∨ ∃ base tail tail' : String, l = base ++ tail ∧ l' = base ++ tail' ∧
      IsLine base.toList ∧ IsTail tail.toList ∧ IsTail tail'.toList ∧ bare l = base ∧ P base := by
  rcases h with rfl | ⟨hbare, hP⟩
  · exact .inl rfl
  · obtain ⟨tail, heq, htail⟩ := exists_eq_bare_append l
    obtain ⟨tail', heq', htail'⟩ := exists_eq_bare_append l'
    rw [← hbare] at heq'
    exact .inr ⟨bare l, tail, tail', heq, heq', isLine_bare hl, htail, htail', rfl, hP⟩

theorem SameBare.fence_eq (h : SameBare P l l') (hl : IsLine l.toList) :
    isFence l' = isFence l ∧ fenceLanguage l' = fenceLanguage l := by
  rcases h.parts hl with rfl | ⟨base, tail, tail', rfl, rfl, hbase, htail, htail', -, -⟩
  · exact ⟨rfl, rfl⟩
  · rw [isFence_append hbase htail, isFence_append hbase htail', fenceLanguage_append hbase htail,
      fenceLanguage_append hbase htail']
    exact ⟨rfl, rfl⟩

theorem SameBare.sameReading (h : SameBare P l l') (hl : IsLine l.toList)
    (hshort : NoneStopsShort P) : SameReading l l' := by
  rcases h.parts hl with rfl | ⟨base, tail, tail', rfl, rfl, hbase, htail, htail', hbare, hP⟩
  · exact .refl _
  · have hnot : ¬StopsShort base := hbare ▸ hshort _ hl (hbare.symm ▸ hP)
    exact (SameReading.append hbase (tells_twoBlanks htail) hnot).trans
      (SameReading.append hbase (tells_twoBlanks htail') hnot).symm

theorem body_of_forall₂ (hshort : NoneStopsShort P) (h : List.Forall₂ (SameBare P) lines lines') :
    IsBody lines → (∀ line ∈ lines, IsLine line.toList) →
      IsBody lines' ∧ List.Forall₂ SameReading lines lines' := by
  induction h with
  | nil => exact fun hbody _ => ⟨hbody, .nil⟩
  | cons h _ ih =>
    intro hbody hlines
    obtain ⟨hfence, hrest⟩ := List.forall_mem_cons.mp hbody
    obtain ⟨hline, hlines⟩ := List.forall_mem_cons.mp hlines
    obtain ⟨hbody', hread⟩ := ih hrest hlines
    exact ⟨List.forall_mem_cons.mpr ⟨(h.fence_eq hline).1.trans hfence, hbody'⟩,
      .cons (h.sameReading hline hshort) hread⟩

/-- Documents that differ at the ends of lines read alike, if no line stops short. -/
theorem DifferAtEnds.alike (h : DifferAtEnds P lines lines') (hshort : NoneStopsShort P) :
    (∀ line ∈ lines, IsLine line.toList) → Alike lines lines' := by
  induction h with
  | nil => exact fun _ => .nil
  | @line l l' rest rest' hl h _ ih =>
    intro hlines
    obtain ⟨hline, hrest⟩ := List.forall_mem_cons.mp hlines
    have hl' := (h.fence_eq hline).1.trans hl
    exact .line hl hl' (h.sameReading hline hshort) (ih hrest)
  | @fence o o' c c' body rest rest' ho hopen hbody hc hclose _ ih =>
    intro hlines
    simp only [List.forall_mem_cons, List.forall_mem_append] at hlines
    obtain ⟨holine, -, hcline, hrest⟩ := hlines
    obtain ⟨ho', hlanguage⟩ := hopen.fence_eq holine
    obtain ⟨hc', -⟩ := hclose.fence_eq hcline
    exact .fence ho (ho'.trans ho) hlanguage.symm hbody hbody hc (hc'.trans hc) (fun _ => rfl)
      (ih hrest)
  | @unclosed o o' body body' ho hopen hbody h =>
    intro hlines
    obtain ⟨holine, hlines⟩ := List.forall_mem_cons.mp hlines
    obtain ⟨ho', hlanguage⟩ := hopen.fence_eq holine
    obtain ⟨hbody', hread⟩ := body_of_forall₂ hshort h hbody hlines
    exact .unclosed ho (ho'.trans ho) hlanguage.symm hbody hbody' fun _ => hread

end NoteGraph.Language

namespace NoteGraph

open NoteGraph.Language NoteGraph.Text

theorem linesOfText_pair {first line : String} (hfirst : IsLine first.toList)
    (hchop : chopLine first = first) (hline : IsLine line.toList) :
    linesOfText ("\n".intercalate [first, line]) = [first, line] := by
  rw [linesOfText_intercalate _ (List.cons_ne_nil _ _), chopped, hchop, chopped]
  · simp
  · simp [hfirst, hline]

/-- Texts that differ at the ends of lines have the same operations, if no line stops short. -/
theorem operationsOf_eq_of_noneStopsShort {P : String → Prop} {text text' : String}
    (h : DifferAtEnds P (linesOfText text) (linesOfText text')) (hshort : NoneStopsShort P) :
    operationsOf text = operationsOf text' := by
  have halike := h.alike hshort fun _ hmem => isLine_of_mem_linesOfText hmem
  rw [operationsOf, operationsOf, operationsIn_eq, operationsIn_eq, operationsOfLines_congr halike]

/-- **Spaces and tabs at the ends of lines** that are not in fences do not matter exactly where
no line stops short: whichever lines `P` picks, all texts that differ at the ends of such lines
have the same operations if and only if none of these lines stops short. -/
theorem operationsOf_eq_iff_noneStopsShort (P : String → Prop) :
    (∀ text text', DifferAtEnds P (linesOfText text) (linesOfText text') →
        operationsOf text = operationsOf text') ↔ NoneStopsShort P := by
  constructor
  · intro h line hline hP
    have hbare := isLine_bare hline
    have htwo : IsLine (bare line ++ "  ").toList := by
      rw [String.toList_append]
      exact hbare.append isTail_twoBlanks
    have hends : SameBare P (bare line) (bare line ++ "  ") := by
      refine .inr ⟨?_, ?_⟩
      · rw [bare_append_twoSpaces, bare_bare]
      · rwa [bare_bare]
    have hlast : DifferAtEnds P [bare line] [bare line ++ "  "] := by
      cases hfence : isFence (bare line) with
      | true => exact .unclosed hfence hends (fun _ hmem => nomatch hmem) .nil
      | false => exact .line hfence hends .nil
    have hops : ∀ {heading : String}, IsLine heading.toList → chopLine heading = heading →
        isFence heading = false → (operationsOfLines .empty [heading, bare line]).1 =
          (operationsOfLines .empty [heading, bare line ++ "  "]).1 := by
      intro heading hheading hchop hfence
      have hlines := linesOfText_pair hheading hchop hbare
      have hlines₂ := linesOfText_pair hheading hchop htwo
      have hdiffer : DifferAtEnds P [heading, bare line] [heading, bare line ++ "  "] :=
        .line hfence (.inl rfl) hlast
      rw [← hlines, ← hlines₂] at hdiffer
      have heq := h _ _ hdiffer
      rwa [operationsOf, operationsIn_eq, hlines, operationsOf, operationsIn_eq, hlines₂] at heq
    apply not_changedBy hbare isTail_twoBlanks
    · exact hops (by simp [IsLine]) (by decide +kernel) (by decide +kernel)
    · exact hops (by simp [IsLine]) (by decide +kernel) (by decide +kernel)
  · exact fun hshort text text' h => operationsOf_eq_of_noneStopsShort h hshort

/-- A blank after the colon makes an attribute with an empty value. -/
theorem operationsOf_blank_value :
    DifferAtEnds (fun _ => True) (linesOfText "# a\nmass:") (linesOfText "# a\nmass: ") ∧
      operationsOf "# a\nmass:" ≠ operationsOf "# a\nmass: " := by
  have hlines : linesOfText "# a\nmass:" = ["# a", "mass:"] := by decide +kernel
  have hlines' : linesOfText "# a\nmass: " = ["# a", "mass: "] := by decide +kernel
  have hbare : bare "mass:" = bare "mass: " := by decide +kernel
  refine ⟨?_, by decide +kernel⟩
  rw [hlines, hlines']
  exact .line (by decide +kernel) (.inl rfl)
    (.line (by decide +kernel) (.inr ⟨hbare, trivial⟩) .nil)

/-- Spaces and tabs may follow any line that does not end in two hashes, a hyphen or a colon. -/
theorem operationsOf_eq_of_differAtEnds {text text' : String}
    (h : DifferAtEnds (fun line => ¬(EndsIn ['#', '#'] line.toList ∨ EndsIn ['-'] line.toList ∨
      EndsIn [':'] line.toList)) (linesOfText text) (linesOfText text')) :
    operationsOf text = operationsOf text' :=
  operationsOf_eq_of_noneStopsShort h fun _ hline hends hshort =>
    hends (hshort.endsIn (isLine_bare hline) isTail_twoBlanks)

end NoteGraph
