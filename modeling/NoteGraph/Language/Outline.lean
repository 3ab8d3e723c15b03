import NoteGraph.Language.Blocks

/-!
# Outlines

The lines of a run of node blocks are grouped: a node heading opens the block of a
node, a morph heading opens a section of it, and every other line belongs to the last
heading before it. Lines before the first node heading belong to nothing. Blank lines
count only inside fences, where nothing else does.
-/

namespace NoteGraph.Language

/-- A section of a node's block under a morph heading. -/
structure MorphSection where
  name : String
  lines : List String
  deriving DecidableEq

/-- The block of a node: its heading, the lines before the first morph heading, and the
sections. -/
structure NodeBlock where
  heading : String
  body : List String
  morphs : List MorphSection
  deriving DecidableEq

/-- What a line is to the outline. -/
inductive Entry where
  | heading (text : String)
  | morph (name : String)
  | content (line : String)
  deriving DecidableEq

/-- The name on a morph heading. -/
def morphName (line : String) : String :=
  Text.trimmed ((Text.trim line.toList).dropWhile (· == '#'))

/-- The entries of lines that start inside or outside of a fence. -/
def entries (inFence : Bool) : List String → List Entry
  | [] => []
  | line :: rest =>
    if inFence then .content line :: entries (!isFence line) rest
    else
      match LineKind.ofLine line with
      | .blank => entries false rest
      | .nodeHeading => .heading (Text.trimmed line.toList) :: entries false rest
      | .morphHeading => .morph (morphName line) :: entries false rest
      | .fence => .content line :: entries true rest
      | _ => .content line :: entries false rest

/-- Entries grouped from the end: the lines and the sections that no heading has opened
yet, and the finished blocks. -/
structure Grouping where
  lines : List String := []
  morphs : List MorphSection := []
  blocks : List NodeBlock := []

/-- An entry in front of what follows it. -/
def Grouping.cons (entry : Entry) (g : Grouping) : Grouping :=
  match entry with
  | .content line => { g with lines := line :: g.lines }
  | .morph name => { g with lines := [], morphs := ⟨name, g.lines⟩ :: g.morphs }
  | .heading text => ⟨[], [], ⟨text, g.lines, g.morphs⟩ :: g.blocks⟩

/-- The node blocks of a list of entries. -/
def groupEntries (es : List Entry) : List NodeBlock := (es.foldr Grouping.cons {}).blocks

/-- The node blocks of a run of lines. -/
def outline (lines : List String) : List NodeBlock := groupEntries (entries false lines)

end NoteGraph.Language
