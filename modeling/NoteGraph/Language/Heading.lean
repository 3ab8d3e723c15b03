import NoteGraph.Language.Name
import NoteGraph.Language.Span

/-!
# Headings

A heading opens the block of a node: `# *quantifier* **adjective** Base name [role]`,
where all but the base name may be absent. A heading that can be read in several ways
is read with the longest marks in front, then with a quantifier and an adjective rather
than without, and with the shortest base name that leaves nothing or only a role.
-/

namespace NoteGraph.Language

open Text

/-- What a heading says of its node. -/
structure Heading where
  nodeId : String
  baseName : String
  displayName : String
  role : String
  adjective : Option String
  quantifier : Option String
  deriving DecidableEq

/-- The parts of a heading as they are written. -/
structure HeadingParts where
  quantifier : Option (List Char)
  adjective : Option (List Char)
  baseName : List Char
  role : Option (List Char)
  deriving DecidableEq

/-- A role in brackets that ends a heading, with blanks before it. -/
def roleAtEnd? (cs : List Char) : Option (List Char) := do
  let inner ← oneLine? (← after? ['['] (trimLeft cs))
  if inner.getLast? = some ']' && !inner.dropLast.isEmpty then some inner.dropLast else none

/-- What may follow a base name: a role or nothing. -/
def readRole? (cs : List Char) : Option (Option (List Char)) :=
  match roleAtEnd? cs with
  | some role => some (some role)
  | none => if atEnd cs then some none else none

/-- A base name and, if there is one, the role after it. -/
def readBase? (cs : List Char) : Option (List Char × Option (List Char)) :=
  someBefore? inLine readRole? cs

/-- An adjective between double stars, the ways to end it and to skip blanks after it. -/
def adjectiveReadings (cs : List Char) : List (List Char × List Char) :=
  match after? ['*', '*'] cs with
  | none => []
  | some rest =>
    (runsBefore inLine ['*', '*'] rest).flatMap fun (adjective, more) =>
      (restsAfter isBlank more).map fun base => (adjective, base)

/-- A quantifier between stars, the ways to skip blanks after it. -/
def quantifierReadings (cs : List Char) : List (List Char × List Char) :=
  match starMarks.spanHere? cs with
  | none => []
  | some (quantifier, after) =>
    (restsAfterSome isBlank after).map fun rest => (quantifier, rest)

/-- What stands after the quantifier. -/
def readAfterQuantifier? (quantifier : Option (List Char)) (cs : List Char) :
    Option HeadingParts :=
  let withAdjective := (adjectiveReadings cs).findSome? fun (adjective, rest) =>
    (readBase? rest).map fun (base, role) => ⟨quantifier, some adjective, base, role⟩
  withAdjective.or
    ((readBase? cs).map fun (base, role) => ⟨quantifier, none, base, role⟩)

/-- What stands after the hashes and the blanks that follow them. -/
def readAfterHashes? (cs : List Char) : Option HeadingParts :=
  ((quantifierReadings cs).findSome? fun (quantifier, rest) =>
    readAfterQuantifier? (some quantifier) rest).or (readAfterQuantifier? none cs)

/-- The parts of a line that has the form of a heading. -/
def headingParts? (line : List Char) : Option HeadingParts :=
  (restsAfterSome (· == '#') (trimLeft line)).findSome? fun rest =>
    (restsAfter isBlank rest).findSome? readAfterHashes?

/-- A line without the hashes at its start and the blanks around them. -/
def dropHashes (line : List Char) : List Char :=
  let rest := trimLeft line
  if rest.head? = some '#' then trimLeft (rest.dropWhile (· == '#')) else line

/-- The parts of any line; one that has not the form of a heading is all base name. -/
def headingParts (line : List Char) : HeadingParts :=
  match headingParts? line with
  | some parts => { parts with baseName := trim parts.baseName }
  | none => ⟨none, none, trim (dropHashes line), none⟩

/-- The parts with a role taken out of the middle of the base name, unless one stands
at the end. -/
def HeadingParts.withInlineRole (p : HeadingParts) : HeadingParts :=
  match p.role with
  | some _ => p
  | none =>
    match bracketMarks.find? p.baseName with
    | some cut => { p with role := some cut.inside, baseName := trim (cut.before ++ cut.after) }
    | none => p

/-- A base name as it is shown, with its adjective between double stars. -/
def displayName (adjective : Option String) (baseName : String) : String :=
  match adjective.filter (!·.isEmpty) with
  | some adj => "**" ++ adj ++ "** " ++ baseName
  | none => baseName

/-- The heading of a line, with the default role where it gives none. -/
def Heading.ofLine (line : String) (defaultRole : String) : Heading :=
  let parts := (headingParts line.toList).withInlineRole
  let adjective := parts.adjective.map trimmed
  let baseName := String.ofList parts.baseName
  { nodeId := Language.nodeId baseName adjective
    baseName
    displayName := Language.displayName adjective baseName
    role := (parts.role.map trimmed).getD defaultRole
    adjective
    quantifier := normalizeQuantifier (parts.quantifier.map String.ofList) }

end NoteGraph.Language
