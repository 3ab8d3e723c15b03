import NoteGraph.Language.LineKind
import NoteGraph.Language.Mindmap

/-!
# Blocks

A text is cut into blocks, each a mindmap or a run of node blocks. Before that, the
description of the whole graph is taken out of its fence. Inside a fence no line counts
for anything but the fence line that ends it.
-/

namespace NoteGraph.Language

/-- A text's lines; a carriage return before a line end belongs to the line end. -/
def linesOfText (text : String) : List String :=
  (Text.lines (dropReturns text.toList)).map String.ofList
where
  /-- A text without the carriage returns before line ends. -/
  dropReturns : List Char → List Char
    | '\r' :: '\n' :: rest => '\n' :: dropReturns rest
    | c :: rest => c :: dropReturns rest
    | [] => []

/-- Lines as one trimmed text. -/
def trimmedText (lines : List String) : String := Text.trimmed ("\n".intercalate lines).toList

/-! ### The description of the graph -/

/-- The language of a fence around the description of a graph. -/
def graphDescriptionFence : String := "graph-description"

mutual

/-- The lines outside of description fences, and the first description; `inFence` tells
whether the lines start inside another fence. -/
def cutDescription (inFence : Bool) : List String → List String × Option String
  | [] => ([], none)
  | line :: rest =>
    if isFence line && !inFence && fenceLanguage line == graphDescriptionFence then
      captureDescription [] rest
    else
      let (kept, description) := cutDescription (inFence != isFence line) rest
      (line :: kept, description)

/-- The same inside a description fence, whose lines so far are `captured`. A fence that
is not closed holds no description, and its lines are kept. -/
def captureDescription (captured : List String) : List String → List String × Option String
  | [] => (captured, none)
  | line :: rest =>
    if isFence line then
      let (kept, _) := cutDescription false rest
      (kept, some (trimmedText captured))
    else captureDescription (captured ++ [line]) rest

end

/-- The currency of the first currency line outside of fences. -/
def findCurrency? (inFence : Bool) : List String → Option String
  | [] => none
  | line :: rest =>
    if isFence line then findCurrency? (!inFence) rest
    else if inFence then findCurrency? true rest
    else (currencyOfLine? line).or (findCurrency? false rest)

/-! ### Mindmaps and node blocks -/

/-- A part of a text. -/
inductive Block where
  /-- A mindmap heading and its items. -/
  | mindmap (lines : List String)
  | plain (lines : List String)
  deriving DecidableEq

/-- A line of blanks alone. -/
def isBlankLine (line : String) : Bool := line.toList.all Text.isBlank

/-- The items that follow a mindmap heading, blank lines left out, and the rest. -/
def takeItems : List String → List String × List String
  | [] => ([], [])
  | line :: rest =>
    if isBlankLine line then takeItems rest
    else if isMindmapItem line then
      let (items, after) := takeItems rest
      (line :: items, after)
    else ([], line :: rest)

/-- The lines up to the next mindmap heading outside of fences, and the rest. -/
def takePlain (inFence : Bool) : List String → List String × List String
  | [] => ([], [])
  | line :: rest =>
    if !inFence && isMindmapHeading line then ([], line :: rest)
    else
      let (body, after) := takePlain (inFence != isFence line) rest
      (line :: body, after)

theorem takeItems_length_le : ∀ lines, (takeItems lines).2.length ≤ lines.length
  | [] => Nat.le_refl _
  | line :: rest => by
    have ih := takeItems_length_le rest
    rw [takeItems]
    split
    · exact Nat.le_succ_of_le ih
    · split
      · exact Nat.le_succ_of_le ih
      · exact Nat.le_refl _

theorem takePlain_length_le : ∀ inFence lines, (takePlain inFence lines).2.length ≤ lines.length
  | _, [] => Nat.le_refl _
  | inFence, line :: rest => by
    rw [takePlain]
    split
    · exact Nat.le_refl _
    · exact Nat.le_succ_of_le (takePlain_length_le _ rest)

/-- The blocks of a text in order. -/
def splitBlocks : List String → List Block
  | [] => []
  | line :: rest =>
    if isMindmapHeading line then
      .mindmap (line :: (takeItems rest).1) :: splitBlocks (takeItems rest).2
    else
      .plain (line :: (takePlain (isFence line) rest).1) ::
        splitBlocks (takePlain (isFence line) rest).2
termination_by lines => lines.length
decreasing_by
  · exact Nat.lt_succ_of_le (takeItems_length_le rest)
  · exact Nat.lt_succ_of_le (takePlain_length_le _ rest)

end NoteGraph.Language
