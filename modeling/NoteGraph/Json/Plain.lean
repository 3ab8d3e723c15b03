import NoteGraph.Json.Basic
import NoteGraph.Text.Quoted

/-!
# Values in messages

How a value stands in a message: a string as it is, inside of lists and objects between
quotes; the words for truth values and for nothing have capitals.
-/

namespace NoteGraph.Json

mutual

/-- A value with its quotes, if it is a string. -/
def quotedText : Json → String
  | null => "None"
  | bool b => if b then "True" else "False"
  | number n => n.text
  | string s => Text.quoted s
  | array items => "[" ++ ", ".intercalate (quotedItems items) ++ "]"
  | object fields => "\x7b" ++ ", ".intercalate (quotedFields fields) ++ "\x7d"

/-- The items of a list. -/
def quotedItems : List Json → List String
  | [] => []
  | item :: rest => quotedText item :: quotedItems rest

/-- The fields of an object. -/
def quotedFields : List (String × Json) → List String
  | [] => []
  | (key, value) :: rest => (Text.quoted key ++ ": " ++ quotedText value) :: quotedFields rest

end

/-- A value as it stands in a message. -/
def plainText : Json → String
  | string s => s
  | j => quotedText j

/-- The word for the kind of a value. -/
def kindName : Json → String
  | null => "NoneType"
  | bool _ => "bool"
  | number (.int _) => "int"
  | number (.float _) => "float"
  | string _ => "str"
  | array _ => "list"
  | object _ => "dict"

end NoteGraph.Json
