import NoteGraph.Language.Outline

/-!
# Statements

The lines of a section say something of their node or nothing: a value, a function,
relations to other nodes, or, in the first description fence of the section, the node's
description.
-/

namespace NoteGraph.Language

/-- What a section says of its node. -/
inductive Statement where
  | description (text : String)
  | attribute (line : AttributeLine)
  | function (name : String)
  | relation (name : String) (targets : List String)
  deriving DecidableEq

/-- The language of a fence around the description of a node. -/
def descriptionFence : String := "description"

/-- What a single line outside of fences says. -/
def Statement.ofLine? (line : String) : Option Statement :=
  match LineKind.ofLine line with
  | .attribute => (AttributeLine.ofLine? line).map .attribute
  | .function => (functionOfLine? line).map .function
  | .relation => (relationOfLine? line).map fun (name, targets) => .relation name targets
  | _ => none

mutual

/-- The statements of lines outside of fences; `described` tells whether the section has
had its description. -/
def statements (described : Bool) : List String → List Statement
  | [] => []
  | line :: rest =>
    if isFence line then fencedStatements described (fenceLanguage line) [] rest
    else (Statement.ofLine? line).toList ++ statements described rest

/-- The statements of lines inside a fence, whose lines so far are `fenced`. -/
def fencedStatements (described : Bool) (language : String) (fenced : List String) :
    List String → List Statement
  | [] => []
  | line :: rest =>
    if isFence line then
      if language == descriptionFence && !described then
        .description (trimmedText fenced) :: statements true rest
      else statements described rest
    else fencedStatements described language (fenced ++ [line]) rest

end

end NoteGraph.Language
