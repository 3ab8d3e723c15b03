import NoteGraph.Text.Readings

/-!
# Mindmap and currency lines

A mindmap opens with a heading that names the relation of its items, `# Root <part>`,
and lists one item to a line after a hyphen, indented below its parent. A currency line
names the currency of the whole text: `currency: EUR;`.
-/

namespace NoteGraph.Language

open Text

/-- The root and the relation of a mindmap heading. -/
structure MindmapHeading where
  root : String
  relation : String
  deriving DecidableEq

/-- The relation that ends a mindmap heading, after at least one blank. -/
def relationAtEnd? (cs : List Char) : Option (List Char) := do
  let (_, rest) ← run? isBlank cs
  let (relation, rest) ← run? (· != '>') (← after? ['<'] rest)
  if (← after? ['>'] rest).all isBlank then some relation else none

/-- The root and the relation of a line, if it is a mindmap heading. -/
def MindmapHeading.ofLine? (line : String) : Option MindmapHeading := do
  let rest ← after? ['#'] (trimLeft line.toList)
  let (root, relation) ←
    (restsAfterSome isBlank rest).findSome? (someBefore? inLine relationAtEnd?)
  some ⟨trimmed root, trimmed relation⟩

/-- An item of a mindmap and the blanks before its hyphen. -/
structure MindmapItem where
  indent : Nat
  name : String
  deriving DecidableEq

/-- The item of a line, if it is an item line. -/
def MindmapItem.ofLine? (line : String) : Option MindmapItem := do
  let cs := line.toList
  let rest ← after? ['-'] (trimLeft cs)
  let name ← lineAfterBlanks? rest
  some ⟨(cs.takeWhile isBlank).length, trimmed name⟩

/-- Whether a line opens a mindmap. -/
def isMindmapHeading (line : String) : Bool := (MindmapHeading.ofLine? line).isSome

/-- Whether a line is an item of a mindmap. -/
def isMindmapItem (line : String) : Bool := (MindmapItem.ofLine? line).isSome

/-- The currency of a currency line; the word `currency` may have capitals. -/
def currencyOfLine? (line : String) : Option String := do
  let cs := trimLeft line.toList
  let word := "currency".toList
  if (cs.take word.length).map Char.toLower != word then none
  let rest ← after? [':'] (trimLeft (cs.drop word.length))
  let value := rest.takeWhile (· != ';')
  let tail := (rest.dropWhile (· != ';')).drop 1
  if value.isEmpty || !tail.all isBlank then none else some (trimmed value)

end NoteGraph.Language
