import NoteGraph.Text.Blank
import NoteGraph.Text.Lowercase
import NoteGraph.Text.Quoted

/-!
# Names and identifiers

The identifiers of nodes and records are made from the names in a text. A node's
identifier depends only on the words of its name in lower case, with all but Latin
letters, digits and hyphens left out.
-/

namespace NoteGraph.Language

open Text

/-- A character that may stand in a word of an identifier: a Latin letter in lower
case, a digit or a hyphen. -/
def isNameChar (c : Char) : Bool :=
  ('a' ≤ c && c ≤ 'z') || ('0' ≤ c && c ≤ '9') || c = '-'

/-- A text with one underscore for each run of blanks. -/
def underscored : List Char → List Char
  | [] => []
  | c :: rest =>
    if isBlank c then
      if rest.head?.any isBlank then underscored rest else '_' :: underscored rest
    else c :: underscored rest

/-- A name in lower case, with all but the characters of words and the blanks left out. -/
def keptOf (name : List Char) : List Char :=
  (lower (trim name)).filter fun c => isNameChar c || isBlank c

/-- The identifier of a name: its words with an underscore between each two of them. -/
def cleanName (name : String) : String :=
  String.ofList (underscored (trim (keptOf name.toList)))

/-- A name in lower case with one underscore for each run of blanks. -/
def slug (name : String) : String := String.ofList (underscored (lower (trim name.toList)))

/-- The identifier of a node: that of its name, after that of its adjective. An empty
adjective counts as none. -/
def nodeId (baseName : String) (adjective : Option String) : String :=
  match adjective.filter (!·.isEmpty) with
  | some adj => cleanName adj ++ "_" ++ cleanName baseName
  | none => cleanName baseName

/-! ### Fingerprints -/

/-- The units of sixteen bits that encode a character. -/
def units16 (c : Char) : List Nat :=
  if c.toNat < 0x10000 then [c.toNat]
  else
    let offset := c.toNat - 0x10000
    [0xD800 + offset / 1024, 0xDC00 + offset % 1024]

/-- The hash of a text: each unit is mixed in by exclusive or, then the hash is
multiplied by a prime modulo `2 ^ 32`. -/
def unitHash (units : List Nat) : Nat :=
  units.foldl (fun hash unit => (hash ^^^ unit) * 0x01000193 % 0x100000000) 0x811C9DC5

/-- The first six of the eight hexadecimal digits of a text's hash. -/
def fingerprint (text : String) : String :=
  String.ofList ((hexDigits 8 (unitHash (text.toList.flatMap units16))).take 6)

end NoteGraph.Language
