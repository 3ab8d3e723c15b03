import NoteGraph.Proofs.Language.Lines
import NoteGraph.Proofs.Schema.Merging

/-!
# Lines of a schema block

A schema block is read line by line, and no line has a say in what another one declares. A line
that is not blank and no comment brings one type or one fault, never both and never none, so a
block has the types of its lines kind by kind, in the order of the lines, and their faults under
the numbers of the lines. Two blocks that are put together with a line end declare what both
declare; the faults of the second one come after those of the first, with their lines counted on.
-/

namespace NoteGraph.Schema

open Text

/-! ### What a line brings -/

/-- A line that says nothing: it is blank or a comment. -/
def IsSilent (line : List Char) : Prop := trim line = [] ∨ (trim line).head? = some '#'

/-- What a line with a number may bring to the result of its block. -/
inductive Brings (number : ℕ) (line : List Char) : BlockResult → Prop where
  /-- A silent line brings nothing. -/
  | nothing : IsSilent line → Brings number line {}
  /-- A line that is not silent declares one type. -/
  | type (entry : Entry) : ¬IsSilent line → Brings number line ⟨({} : Catalog).add entry, []⟩
  /-- Or else it has one fault, with the number of the line. -/
  | fault (fault : BlockFault) : ¬IsSilent line → Brings number line ⟨{}, [⟨fault, number⟩]⟩

/-- An error of a line that has `count` more lines before it. -/
def BlockError.below (count : ℕ) (e : BlockError) : BlockError := { e with line := e.line + count }

/-- What a block comes to that has `count` more lines before it. -/
def BlockResult.below (count : ℕ) (r : BlockResult) : BlockResult :=
  { r with errors := r.errors.map (·.below count) }

/-- What a line with a number comes to by itself. -/
def lineResult (line : List Char) (number : ℕ) : BlockResult :=
  BlockResult.addLine {} line number

section Line

variable (line : List Char) (number : ℕ)

theorem entryOfLine?_eq_none_iff : entryOfLine? line = none ↔ IsSilent line := by
  unfold entryOfLine? IsSilent
  constructor
  · intro h
    by_contra hloud
    obtain ⟨hne, hcomment⟩ := not_or.mp hloud
    dsimp only at h
    rw [if_neg (by simp [hne, hcomment])] at h
    -- a line with something on it has one of three faults or declares what its fields do
    split at h
    · cases h
    · split at h <;> cases h
  · intro h
    apply if_pos
    simpa using h

theorem brings_lineResult : Brings number line (lineResult line number) := by
  have hsilent := entryOfLine?_eq_none_iff line
  unfold lineResult BlockResult.addLine
  cases hread : entryOfLine? line with
  | none => exact .nothing (hsilent.mp hread)
  | some said =>
    have hloud : ¬IsSilent line := by
      intro h
      rw [hsilent.mpr h] at hread
      cases hread
    cases said with
    | ok entry => exact .type entry hloud
    | error fault => exact .fault fault hloud

theorem lineResult_below (count : ℕ) :
    lineResult line (number + count) = (lineResult line number).below count := by
  unfold lineResult BlockResult.addLine
  cases entryOfLine? line with
  | none => rfl
  | some said => cases said <;> rfl

/-- A line adds what it comes to by itself. -/
theorem list_addLine (kind : Kind) (r : BlockResult) : kind.list (r.addLine line number).catalog =
    kind.list r.catalog ++ kind.list (lineResult line number).catalog := by
  have hadd : ∀ entry : Entry, kind.list (r.catalog.add entry) =
      kind.list r.catalog ++ kind.list (({} : Catalog).add entry) := by
    intro entry
    cases kind <;> cases entry
    all_goals first
      | rfl
      | exact (List.append_nil _).symm
  unfold lineResult BlockResult.addLine
  cases entryOfLine? line with
  | none => simp [kind.list_empty]
  | some said =>
    cases said with
    | ok entry => exact hadd entry
    | error fault => simp [kind.list_empty]

theorem errors_addLine (r : BlockResult) :
    (r.addLine line number).errors = r.errors ++ (lineResult line number).errors := by
  unfold lineResult BlockResult.addLine
  cases entryOfLine? line with
  | none => simp
  | some said => cases said <;> simp

end Line

/-! ### What a block comes to -/

/-- The types of a block are those of its lines. -/
theorem list_readBlock (kind : Kind) (text : String) : kind.list (readBlock text).catalog =
    (lines text.toList).flatMap fun line => kind.list (lineResult line 1).catalog := by
  have hlist (line : List Char) (number : ℕ) : kind.list (lineResult line number).catalog =
      kind.list (lineResult line 1).catalog := by
    unfold lineResult BlockResult.addLine
    cases entryOfLine? line with
    | none => rfl
    | some said => cases said <;> rfl
  have hfold : ∀ (ls : List (List Char)) (number : ℕ) (r : BlockResult),
      kind.list ((ls.zipIdx number).foldl (fun r l => r.addLine l.1 l.2) r).catalog =
        kind.list r.catalog ++ ls.flatMap fun line => kind.list (lineResult line 1).catalog := by
    intro ls
    induction ls with
    | nil => simp
    | cons line rest ih =>
      intro number r
      rw [List.zipIdx_cons, List.foldl_cons, ih, list_addLine, hlist, List.flatMap_cons,
        List.append_assoc]
  have hstart := hfold (lines text.toList) 1 {}
  rwa [kind.list_empty, List.nil_append] at hstart

/-- The errors of a block are those of its lines. -/
theorem errors_readBlock (text : String) : (readBlock text).errors =
    ((lines text.toList).zipIdx 1).flatMap fun l => (lineResult l.1 l.2).errors := by
  have hfold : ∀ (ls : List (List Char × ℕ)) (r : BlockResult),
      (ls.foldl (fun r l => r.addLine l.1 l.2) r).errors =
        r.errors ++ ls.flatMap fun l => (lineResult l.1 l.2).errors := by
    intro ls
    induction ls with
    | nil => simp
    | cons l rest ih =>
      intro r
      rw [List.foldl_cons, ih, errors_addLine, List.flatMap_cons, List.append_assoc]
  exact hfold _ {}

theorem readBlock_line {line : List Char} (hline : IsLine line) :
    readBlock (String.ofList line) = lineResult line 1 := by
  have hlines : lines line = [line] := List.splitOn_eq_singleton hline
  rw [readBlock, String.toList_ofList, hlines]
  rfl

/-! ### Blocks put together -/

theorem lines_append (s t : String) :
    lines (s ++ "\n" ++ t).toList = lines s.toList ++ lines t.toList := by
  have htext : (s ++ "\n" ++ t).toList = s.toList ++ '\n' :: t.toList := by
    simp [String.toList_append]
  rw [htext]
  exact List.splitOn_append_cons_self _ _

theorem errors_zipIdx_add (ls : List (List Char)) (number count : ℕ) :
    ((ls.zipIdx (number + count)).flatMap fun l => (lineResult l.1 l.2).errors) =
      ((ls.zipIdx number).flatMap fun l => (lineResult l.1 l.2).errors).map (·.below count) := by
  rw [Nat.add_comm, ← List.map_snd_add_zipIdx_eq_zipIdx, List.flatMap_map, List.map_flatMap]
  apply List.flatMap_congr
  intro l _
  show (lineResult l.1 (l.2 + count)).errors = _
  rw [lineResult_below]
  rfl

theorem list_readBlock_append (kind : Kind) (s t : String) :
    kind.list (readBlock (s ++ "\n" ++ t)).catalog =
      kind.list (readBlock s).catalog ++ kind.list (readBlock t).catalog := by
  rw [list_readBlock, lines_append, List.flatMap_append, ← list_readBlock, ← list_readBlock]

theorem errors_readBlock_append (s t : String) : (readBlock (s ++ "\n" ++ t)).errors =
    (readBlock s).errors ++ (readBlock t).errors.map (·.below (lines s.toList).length) := by
  rw [errors_readBlock, lines_append, List.zipIdx_append, List.flatMap_append, errors_zipIdx_add,
    ← errors_readBlock, ← errors_readBlock]

/-! ### The order of the errors -/

theorem Brings.errors_eq {number : ℕ} {line : List Char} {r : BlockResult}
    (h : Brings number line r) : r.errors = [] ∨ ∃ fault, r.errors = [⟨fault, number⟩] := by
  cases h with
  | nothing => exact .inl rfl
  | type => exact .inl rfl
  | fault fault => exact .inr ⟨fault, rfl⟩

/-- A line has at most one error, and its number is that of the line, so errors come in the order
of their lines. -/
theorem pairwise_errors (text : String) :
    (readBlock text).errors.Pairwise fun e e' => e.line < e'.line := by
  have hnumber : ∀ (line : List Char) (number : ℕ),
      ∀ e ∈ (lineResult line number).errors, e.line = number := by
    intro line number e he
    obtain hnone | ⟨fault, hone⟩ := (brings_lineResult line number).errors_eq
    · rw [hnone] at he
      cases he
    · rw [hone, List.mem_singleton] at he
      rw [he]
  have hnumbers : ((lines text.toList).zipIdx 1).Pairwise fun l l' => l.2 < l'.2 := by
    rw [← List.pairwise_map (f := Prod.snd) (R := (· < ·)), List.zipIdx_map_snd]
    exact List.pairwise_lt_range' 1
  rw [errors_readBlock, List.pairwise_flatMap]
  constructor
  · intro l _
    obtain hnone | ⟨fault, hone⟩ := (brings_lineResult l.1 l.2).errors_eq
    · rw [hnone]
      exact List.Pairwise.nil
    · rw [hone]
      exact List.pairwise_singleton _ _
  · apply hnumbers.imp
    intro l l' hlt e he e' he'
    rw [hnumber _ _ e he, hnumber _ _ e' he']
    exact hlt

/-- **Blocks are read line by line**: of two blocks put together the types are, kind by kind, those
of the first and then those of the second, and the errors likewise, those of the second with the
lines of the first counted on in their numbers and messages. A block comes to what its lines come
to as blocks of their own: a line that is blank or a comment brings nothing, and any other line
either one type or one error with its number. So errors come in the order of their lines. -/
theorem readBlock_line_by_line :
    (∀ s t : String,
      let joined := readBlock (s ++ "\n" ++ t)
      let count := (lines s.toList).length
      (∀ kind : Kind, kind.list joined.catalog =
        kind.list (readBlock s).catalog ++ kind.list (readBlock t).catalog) ∧
      joined.errors = (readBlock s).errors ++ (readBlock t).errors.map (·.below count) ∧
      joined.errors.map BlockError.message = (readBlock s).errors.map BlockError.message ++
        (readBlock t).errors.map fun e =>
          "Line " ++ toString (e.line + count) ++ ": " ++ e.fault.message) ∧
    ∀ text : String,
      let ls := lines text.toList
      let alone := fun line => readBlock (String.ofList line)
      (∀ kind : Kind, kind.list (readBlock text).catalog =
        ls.flatMap fun line => kind.list (alone line).catalog) ∧
      (readBlock text).errors =
        ls.zipIdx.flatMap (fun l => ((alone l.1).below l.2).errors) ∧
      (∀ i : Fin ls.length, Brings (i + 1) (ls.get i) ((alone (ls.get i)).below i)) ∧
      (readBlock text).errors.Pairwise fun e e' => e.line < e'.line := by
  constructor
  · intro s t joined count
    have herrors : joined.errors =
        (readBlock s).errors ++ (readBlock t).errors.map (·.below count) :=
      errors_readBlock_append s t
    refine ⟨fun kind => list_readBlock_append kind s t, herrors, ?_⟩
    rw [herrors, List.map_append, List.map_map]
    rfl
  · intro text ls alone
    have halone : ∀ line ∈ ls, ∀ before,
        (alone line).below before = lineResult line (1 + before) := by
      intro line hline before
      show (readBlock (String.ofList line)).below before = _
      rw [readBlock_line (Language.isLine_of_mem_splitOn hline), lineResult_below]
    refine ⟨fun kind => ?_, ?_, fun i => ?_, pairwise_errors text⟩
    · rw [list_readBlock]
      apply List.flatMap_congr
      intro line hline
      rw [← readBlock_line (Language.isLine_of_mem_splitOn hline)]
    · rw [errors_readBlock, List.zipIdx_eq_map_add, List.flatMap_map]
      apply List.flatMap_congr
      rintro ⟨line, before⟩ hmem
      have hline : line ∈ ls := List.fst_mem_of_mem_zipIdx hmem
      show _ = ((alone line).below before).errors
      rw [halone line hline]
    · rw [halone (ls.get i) (List.get_mem ls i), Nat.add_comm 1]
      exact brings_lineResult (ls.get i) (i + 1)

/-- A comment and a blank line count as lines. -/
example : (readBlock "nodeType: Star\n# far\n\nstar: Sun\nnodeType: Moon, \nSun").catalog =
    { nodeTypes := [{ name := "Star" }, { name := "Moon" }] } ∧
    (readBlock "nodeType: Star\n# far\n\nstar: Sun\nnodeType: Moon, \nSun").errors.map
      BlockError.message = ["Line 4: Unknown type prefix \"star\"",
        "Line 6: Missing type prefix (e.g., \"nodeType:\")"] := by
  decide +kernel

end NoteGraph.Schema
