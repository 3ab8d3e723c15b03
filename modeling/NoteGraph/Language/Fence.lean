import NoteGraph.Text.Readings
import NoteGraph.Text.WordCharacter

/-!
# Fences

A fence line opens or closes a block of free text: three backquotes, and after them the
name of the language of the block, if it has one.
-/

namespace NoteGraph.Language

open Text

/-- Three backquotes. -/
def fenceMark : List Char := List.replicate 3 (Char.ofNat 96)

/-- A character in the name of a fence's language. -/
def isLanguageChar (c : Char) : Bool := isWordCharacter c || c = '-'

/-- The language of a fence line, empty if it names none. -/
def fenceLanguage? (line : List Char) : Option (List Char) := do
  let rest := trimLeft (← after? fenceMark (trimLeft line))
  let language := rest.takeWhile isLanguageChar
  if (rest.dropWhile isLanguageChar).all isBlank then some language else none

/-- A line that opens or closes a fenced block. -/
def isFence (line : String) : Bool := (fenceLanguage? line.toList).isSome

/-- The language of a fence line, and the empty text for any other line. -/
def fenceLanguage (line : String) : String :=
  String.ofList ((fenceLanguage? line.toList).getD [])

end NoteGraph.Language
