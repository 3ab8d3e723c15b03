import NoteGraph.Language.Span

/-!
# Attribute and function lines

An attribute line gives a node a named value, `name: value *unit* *quantifier*
++adverb++ [modality];`, and may begin with the word `has`. A function line applies a
named function to a node: `has function "name";`.
-/

namespace NoteGraph.Language

open Text

/-- A named value and what qualifies it. -/
structure AttributeLine where
  name : String
  value : String
  unit : Option String
  quantifier : Option String
  adverb : Option String
  modality : Option String
  deriving DecidableEq

/-- The word that may begin an attribute line. -/
def hasWord : List Char := "has".toList

/-- The name before the colon of an attribute line, without the word `has` in front.
The word counts as the name itself when no other name follows it; a name of blanks
alone is empty. -/
def attributeName? (head : List Char) : Option (List Char) :=
  let plain := if head.isEmpty then none else some (trim head)
  match after? hasWord (trimLeft head) with
  | none => plain
  | some rest =>
    let blanks := rest.takeWhile isBlank
    let name := rest.dropWhile isBlank
    if blanks.isEmpty then plain
    else if name.isEmpty then if blanks.length = 1 then plain else some []
    else some (trim name)

/-- The name and the value, with all its marks, of an attribute line: the value ends at
the first semicolon, and neither part is empty. -/
def attributeParts? (line : List Char) : Option (List Char × List Char) := do
  let head := line.takeWhile fun c => c != ':' && c != '<'
  let rest ← after? [':'] (line.drop head.length)
  let name ← attributeName? head
  let value := rest.takeWhile (· != ';')
  if value.isEmpty then none else some (name, trim value)

/-- The attribute of a line, if it is an attribute line. Only a value with a unit can
have a quantifier. -/
def AttributeLine.ofLine? (line : String) : Option AttributeLine := do
  let (name, value) ← attributeParts? line.toList
  let (unit, rest) := extractUnit (String.ofList value)
  let (quantifier, rest) := if unit.isSome then extractQuantifier rest else (none, rest)
  let (adverb, rest) := extractAdverb rest
  let (modality, rest) := extractModality rest
  some ⟨String.ofList name, trimmed rest.toList, unit, quantifier, adverb, modality⟩

/-- Text that starts with at least one blank, without its blanks. -/
def afterBlanks? (cs : List Char) : Option (List Char) :=
  (run? isBlank cs).map (·.2)

/-- The name on a function line as it is written. -/
def functionName? (line : List Char) : Option (List Char) := do
  let rest ← afterBlanks? (← after? hasWord (trimLeft line))
  let rest ← afterBlanks? (← after? "function".toList rest)
  let (name, rest) ← run? (· != '"') (← after? ['"'] rest)
  let rest ← after? ['"'] rest
  let _ ← after? [';'] (trimLeft rest)
  some name

/-- The function that a function line applies. -/
def functionOfLine? (line : String) : Option String :=
  (functionName? line.toList).map trimmed

end NoteGraph.Language
