import NoteGraph.Text.Lowercase
import NoteGraph.Text.Readings

/-!
# Marked spans

Parts of a value are marked inside its text: `*unit*`, `++adverb++`, `[modality]`. The
first span of a kind is taken out, and what is left is the text before it and the text
after it.
-/

namespace NoteGraph.Language

open Text

/-- The marks around a span, and the character that its inside may not hold. -/
structure Marks where
  opening : List Char
  closing : List Char
  barred : Char

/-- A text cut at a span. -/
structure Cut where
  before : List Char
  inside : List Char
  after : List Char
  deriving DecidableEq

/-- The span that starts a text: its inside, which is not empty, and what follows it. -/
def Marks.spanHere? (m : Marks) (cs : List Char) : Option (List Char × List Char) := do
  let (inside, rest) ← run? (· != m.barred) (← after? m.opening cs)
  let after ← after? m.closing rest
  some (inside, after)

/-- The first span in a text; `before` holds the characters before it, last first. -/
def Marks.findAfter? (m : Marks) (before : List Char) : List Char → Option Cut
  | [] => none
  | c :: rest =>
    match m.spanHere? (c :: rest) with
    | some (inside, after) => some ⟨before.reverse, inside, after⟩
    | none => m.findAfter? (c :: before) rest

/-- The first span in a text. -/
def Marks.find? (m : Marks) (cs : List Char) : Option Cut := m.findAfter? [] cs

/-- `*unit*`, and after it `*quantifier*`. -/
def starMarks : Marks := ⟨['*'], ['*'], '*'⟩

/-- `++adverb++`. -/
def plusMarks : Marks := ⟨['+', '+'], ['+', '+'], '+'⟩

/-- `[modality]`, and in a heading `[role]`. -/
def bracketMarks : Marks := ⟨['['], [']'], ']'⟩

/-- The first span's trimmed inside and the trimmed text without it; the text as it is
when it has no span. -/
def Marks.extract (m : Marks) (value : String) : Option String × String :=
  match m.find? value.toList with
  | none => (none, value)
  | some cut => (some (trimmed cut.inside), trimmed (cut.before ++ cut.after))

/-- The unit of a value. -/
def extractUnit (value : String) : Option String × String := starMarks.extract value

/-- The quantifier of a value whose unit has been taken out. -/
def extractQuantifier (value : String) : Option String × String := starMarks.extract value

/-- The adverb of a value. -/
def extractAdverb (value : String) : Option String × String := plusMarks.extract value

/-- The modality of a value. -/
def extractModality (value : String) : Option String × String := bracketMarks.extract value

/-! ### Quantifiers -/

/-- The spellings of the two logical quantifiers. -/
def quantifierNames : List (String × String) :=
  [("all", "universal"), ("every", "universal"), ("some", "existential"),
   ("exists", "existential")]

/-- A quantifier under its logical name, if it has one; an empty one is none. -/
def normalizeQuantifier (token : Option String) : Option String := do
  let name := trimmed (← token).toList
  if name.isEmpty then none
  some ((quantifierNames.lookup (String.ofList (lower name.toList))).getD name)

end NoteGraph.Language
