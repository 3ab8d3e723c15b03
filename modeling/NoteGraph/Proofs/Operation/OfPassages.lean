import NoteGraph.Proofs.Operation.Passages

/-!
# The stream of a text, passage by passage

A text is compiled part by part, and a part is a mindmap or a run of node blocks. How the blocks
are taken together in parts does not matter: the operations of a text are those of its passages,
in a session that knows the headings of all node blocks, and the description and the currency of
the graph after them.
-/

namespace NoteGraph

open NoteGraph.Language

/-- The passages of lines from which the description of the graph has been taken out. -/
def passagesOfLines (lines : List String) : List Passage :=
  ((splitBlocks lines).map Part.ofBlock).flatMap Part.passages

/-- The operations of a passage. -/
def passageOperations (s : TextSession) : Passage → List Operation × TextSession
  | .mindmap lines => mindmapOperations s lines
  | .node block => blockOperations s block

/-- The node block that a passage is. -/
def Passage.block? : Passage → Option NodeBlock
  | mindmap _ => none
  | node block => some block

/-- The nodes whose headings open blocks. -/
def headingIds (passages : List Passage) : List String :=
  (passages.filterMap Passage.block?).map fun block => (headingOf block).nodeId

/-- The operations of passages one after another. All headings are known from the start. -/
def operationsOfPassages (s : TextSession) (passages : List Passage) :
    List Operation × TextSession :=
  operationsOfAll passageOperations ((headingIds passages).foldl Session.declaring s) passages

/-- The operations that set the description and the currency of the graph. -/
def closingOperations (lines : List String) : List Operation :=
  ((cutDescription false lines).2.toList.map fun text =>
      { id := "graph_description", action := .setDescription text : Operation }) ++
    (findCurrency? false (cutDescription false lines).1).toList.map fun currency =>
      { id := "graph_currency", action := .setCurrency currency : Operation }

/-! ### Steps over joined lists -/

section Steps

variable {α β : Type}

theorem operationsOfAll_append (step : TextSession → α → List Operation × TextSession)
    (as bs : List α) : ∀ s, operationsOfAll step s (as ++ bs) =
      ((operationsOfAll step s as).1 ++
          (operationsOfAll step (operationsOfAll step s as).2 bs).1,
        (operationsOfAll step (operationsOfAll step s as).2 bs).2) := by
  induction as with
  | nil => exact fun _ => rfl
  | cons a rest ih =>
    intro s
    simp only [List.cons_append, operationsOfAll, ih, List.append_assoc]

theorem operationsOfAll_map (step : TextSession → β → List Operation × TextSession) (f : α → β)
    (as : List α) : ∀ s, operationsOfAll step s (as.map f) =
      operationsOfAll (fun s a => step s (f a)) s as := by
  induction as with
  | nil => exact fun _ => rfl
  | cons a rest ih =>
    intro s
    simp only [List.map_cons, operationsOfAll, ih]

/-- A step that is made of smaller ones can be taken apart. -/
theorem operationsOfAll_flatMap {step : TextSession → α → List Operation × TextSession}
    {small : TextSession → β → List Operation × TextSession} {pieces : α → List β}
    (h : ∀ s a, step s a = operationsOfAll small s (pieces a)) (as : List α) :
    ∀ s, operationsOfAll step s as = operationsOfAll small s (as.flatMap pieces) := by
  induction as with
  | nil => exact fun _ => rfl
  | cons a rest ih =>
    intro s
    simp only [List.flatMap_cons, operationsOfAll_append, operationsOfAll, h, ih]

end Steps

/-! ### Texts -/

theorem partOperations_eq (s : TextSession) (part : Part) :
    partOperations s part = operationsOfAll passageOperations s part.passages := by
  cases part with
  | mindmap lines => simp [Part.passages, operationsOfAll, partOperations, passageOperations]
  | nodes blocks =>
    rw [Part.passages, operationsOfAll_map]
    rfl

theorem blocks_eq (parts : List Part) :
    parts.flatMap Part.blocks = (parts.flatMap Part.passages).filterMap Passage.block? := by
  rw [List.filterMap_flatMap]
  refine congrArg (parts.flatMap ·) (funext fun part => ?_)
  cases part with
  | mindmap lines => rfl
  | nodes blocks => simp [Part.blocks, Part.passages, List.filterMap_map, Function.comp_def,
      Passage.block?]

/-- The operations of lines are those of their passages and the closing ones. -/
theorem operationsOfLines_eq (s : TextSession) (lines : List String) :
    operationsOfLines s lines =
      ((operationsOfPassages s (passagesOfLines (cutDescription false lines).1)).1 ++
          closingOperations lines,
        (operationsOfPassages s (passagesOfLines (cutDescription false lines).1)).2) := by
  simp only [operationsOfLines, operationsOfPassages, passagesOfLines, closingOperations,
    headingIds, blocks_eq, operationsOfAll_flatMap partOperations_eq, List.append_assoc]

/-- The operations of a text are those of its passages and the closing ones. -/
theorem operationsOf_eq (text : String) : operationsOf text =
    (operationsOfPassages .empty (passages text)).1 ++ closingOperations (linesOfText text) := by
  rw [operationsOf, operationsIn_eq, operationsOfLines_eq]
  rfl

end NoteGraph
