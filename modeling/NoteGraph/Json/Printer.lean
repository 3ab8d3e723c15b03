import NoteGraph.Json.Basic

/-!
# Printing JSON

Two layouts: one line, and two columns of indentation to each level. Quotes,
backslashes and control characters are always escaped; all but the printable ASCII
characters are escaped on demand, those above the sixteen-bit range as a surrogate pair.
-/

namespace NoteGraph.Json

/-- Which characters are escaped, beyond those that must be. -/
inductive Escapes where
  | onlyRequired
  | allButAscii
  deriving DecidableEq

/-- The escape of one unit of sixteen bits. -/
def unitEscape (n : Nat) : List Char := '\\' :: 'u' :: Text.hexDigits 4 n

/-- One character of a string. -/
def charText (escapes : Escapes) (c : Char) : List Char :=
  if c = '"' then ['\\', '"']
  else if c = '\\' then ['\\', '\\']
  else if c = '\n' then ['\\', 'n']
  else if c = '\r' then ['\\', 'r']
  else if c = '\t' then ['\\', 't']
  else if c.toNat = 8 then ['\\', 'b']
  else if c.toNat = 12 then ['\\', 'f']
  else if c.toNat < 32 then unitEscape c.toNat
  else if escapes = .allButAscii && 127 ≤ c.toNat then
    if c.toNat < 0x10000 then unitEscape c.toNat
    else
      let offset := c.toNat - 0x10000
      unitEscape (0xD800 + offset / 1024) ++ unitEscape (0xDC00 + offset % 1024)
  else [c]

/-- One code point of a string in ASCII; half of a surrogate pair, which is no character,
is escaped as it is. -/
def pointText (point : Nat) : List Char :=
  if point.isValidChar then charText .allButAscii (Char.ofNat point) else unitEscape point

/-- A string between quotes. -/
def stringText (escapes : Escapes) (s : String) : String :=
  "\"" ++ String.ofList (s.toList.flatMap (charText escapes)) ++ "\""

/-- A number; the values that no decimal fraction writes have words of their own. -/
def numberText : Number → String
  | .float (.infinite negative) => if negative then "-Infinity" else "Infinity"
  | .float .undefined => "NaN"
  | n => n.text

mutual

/-- A value on one line, a space after each comma and colon. -/
def lineText (escapes : Escapes) : Json → String
  | null => "null"
  | bool b => if b then "true" else "false"
  | number n => numberText n
  | string s => stringText escapes s
  | array items => "[" ++ ", ".intercalate (lineItems escapes items) ++ "]"
  | object fields => "\x7b" ++ ", ".intercalate (lineFields escapes fields) ++ "\x7d"

/-- The items of an array on one line. -/
def lineItems (escapes : Escapes) : List Json → List String
  | [] => []
  | item :: rest => lineText escapes item :: lineItems escapes rest

/-- The fields of an object on one line. -/
def lineFields (escapes : Escapes) : List (String × Json) → List String
  | [] => []
  | (key, value) :: rest =>
    (stringText escapes key ++ ": " ++ lineText escapes value) :: lineFields escapes rest

end

/-- A line end and the indentation of a level. -/
def newLine (level : Nat) : String := "\n" ++ "".pushn ' ' (2 * level)

/-- Items between brackets, one to a line. -/
def block (level : Nat) (opening closing : String) (items : List String) : String :=
  if items.isEmpty then opening ++ closing
  else
    opening ++ newLine (level + 1) ++ ("," ++ newLine (level + 1)).intercalate items ++
      newLine level ++ closing

mutual

/-- A value with each item and field on a line of its own. -/
def blockText (level : Nat) : Json → String
  | null => "null"
  | bool b => if b then "true" else "false"
  | number n => numberText n
  | string s => stringText .onlyRequired s
  | array items => block level "[" "]" (blockItems (level + 1) items)
  | object fields => block level "\x7b" "\x7d" (blockFields (level + 1) fields)

/-- The items of an array, each on its line. -/
def blockItems (level : Nat) : List Json → List String
  | [] => []
  | item :: rest => blockText level item :: blockItems level rest

/-- The fields of an object, each on its line. -/
def blockFields (level : Nat) : List (String × Json) → List String
  | [] => []
  | (key, value) :: rest =>
    (stringText .onlyRequired key ++ ": " ++ blockText level value) ::
      blockFields level rest

end

end NoteGraph.Json
