import NoteGraph.Language.Attribute
import NoteGraph.Language.Fence
import NoteGraph.Language.Relation

/-!
# Kinds of lines

Every line has one kind, decided by the line alone. The kinds are tried in a fixed
order, and a line that is of no other kind is text.
-/

namespace NoteGraph.Language

open Text

/-- The kinds of lines. -/
inductive LineKind where
  | blank
  | fence
  | nodeHeading
  | morphHeading
  | relation
  | function
  | attribute
  | text
  deriving DecidableEq

/-- A line of three hashes or more, which opens nothing. -/
def isDeepHeading (line : List Char) : Bool :=
  (after? ['#', '#', '#'] (trimLeft line)).isSome

/-- A line of two hashes and a name. -/
def isMorphHeading (line : List Char) : Bool :=
  ((after? ['#', '#'] (trimLeft line)).bind lineAfterBlanks?).isSome

/-- A line of one hash and a name. -/
def isNodeHeading (line : List Char) : Bool :=
  match after? ['#'] (trimLeft line) with
  | some rest => rest.head?.any isBlank && rest.any (!isBlank ·)
  | none => false

/-- The kind of a line. -/
def LineKind.ofLine (line : String) : LineKind :=
  let cs := line.toList
  if cs.all isBlank then .blank
  else if isFence line then .fence
  else if isDeepHeading cs then .text
  else if isMorphHeading cs then .morphHeading
  else if isNodeHeading cs then .nodeHeading
  else if (trimLeft cs).head? = some '<' then
    if (relationOfLine? line).isSome then .relation else .text
  else if (functionOfLine? line).isSome then .function
  else if (attributeParts? cs).isSome then .attribute
  else .text

/-- The word for a kind of line. -/
def LineKind.name : LineKind → String
  | .blank => "blank"
  | .fence => "fence"
  | .nodeHeading => "node_heading"
  | .morphHeading => "morph_heading"
  | .relation => "relation"
  | .function => "function"
  | .attribute => "attribute"
  | .text => "text"

end NoteGraph.Language
