import NoteGraph.Language.Heading
import NoteGraph.Number.Basic
import NoteGraph.Text.DecimalDigit

/-!
# Relation lines

A relation line relates a node to one or more targets: `<name> 2 **adjective** Base;
Other;`. A target names a node as a heading does, after a weight of at most two
decimals; a target without a weight has weight one.
-/

namespace NoteGraph.Language

open Text

/-! ### The line -/

/-- The targets that follow the name of a relation, after the mark that ends it. -/
def targetsAtEnd? (cs : List Char) : Option (List Char) := do
  oneLine? (trimLeft (← after? ['>'] cs))

/-- The name of a relation and its raw targets, trimmed, empty ones left out. -/
def relationOfLine? (line : String) : Option (String × List String) := do
  let rest ← after? ['<'] (trimLeft line.toList)
  let (name, targets) ← someBefore? inLine targetsAtEnd? rest
  some (trimmed name, ((targets.splitOn ';').map trimmed).filter (!·.isEmpty))

/-! ### Weights -/

/-- The fraction of a weight: a point and one or two digits, or nothing. -/
def weightPlaces (cs : List Char) : List Char :=
  match cs with
  | '.' :: rest =>
    let digits := (rest.takeWhile isDigit).take 2
    if digits.isEmpty then [] else '.' :: digits
  | _ => []

/-- The numeral of the weight that starts a target, and the rest of the target. -/
def weightNumeral? (target : List Char) : Option (List Char × List Char) := do
  let (whole, rest) ← run? isDigit target
  let places := weightPlaces rest
  let name ← lineAfterBlanks? (rest.drop places.length)
  some (whole ++ places, name)

/-- The weight of a target and the rest of it. -/
def splitWeight (target : String) : Number × String :=
  match weightNumeral? target.toList with
  | none => (.int 1, target)
  | some (numeral, rest) =>
    match Number.ofNumeral (String.ofList numeral) with
    | .ok weight => (weight, trimmed rest)
    | .error _ => (.int 1, target)

/-! ### Adjectives -/

/-- The adjective between single or double stars that starts a text, and the name after
it. -/
def adjectiveHere? (cs : List Char) : Option (List Char × List Char) := do
  let rest ← after? ['*'] cs
  let (adjective, rest) ← run? (· != '*') ((after? ['*'] rest).getD rest)
  let rest ← after? ['*'] rest
  let rest ← (restsAfterSome isBlank ((after? ['*'] rest).getD rest)).find?
    fun rest => rest.head?.any inLine
  some (adjective, rest.takeWhile inLine)

/-- The first adjective in a text, and the name after it. -/
def findAdjective? : List Char → Option (List Char × List Char)
  | [] => none
  | c :: rest => (adjectiveHere? (c :: rest)).or (findAdjective? rest)

/-- The adjective of a target and its base name; what stands before the adjective is
left out of both. -/
def splitAdjective (target : String) : Option String × String :=
  match findAdjective? target.toList with
  | none => (none, target)
  | some (adjective, name) => (some (trimmed adjective), trimmed name)

/-! ### Targets -/

/-- A target of a relation. -/
structure Target where
  nodeId : String
  baseName : String
  displayName : String
  weight : Number
  adjective : Option String
  deriving DecidableEq

/-- The spelling of a target in the form of a heading, without its weight. -/
def Target.surface (t : Target) : String := Language.displayName t.adjective t.baseName

/-- The target that a raw target spells. -/
def Target.ofRaw (raw : String) : Target :=
  let (weight, target) := splitWeight (trimmed raw.toList)
  let (adjective, baseName) := splitAdjective target
  { nodeId := Language.nodeId baseName adjective
    baseName
    displayName := target
    weight
    adjective }

end NoteGraph.Language
