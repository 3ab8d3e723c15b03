import NoteGraph.Number.Basic

/-!
# JSON values

A value of the data format in which operations, graphs, settings and reports are
written. Objects keep the order of their fields.
-/

namespace NoteGraph

/-- A JSON value; numbers keep the kind in which they were written. -/
inductive Json where
  | null
  | bool (value : Bool)
  | number (value : Number)
  | string (value : String)
  | array (items : List Json)
  | object (fields : List (String × Json))
  deriving Inhabited

namespace Json

/-- The value of a field. -/
def field? (fields : List (String × Json)) (key : String) : Option Json :=
  fields.lookup key

/-- A list of strings. -/
def strings (values : List String) : Json := .array (values.map .string)

/-- A value that may be absent; its absence is written as `null`. -/
def optional (encode : α → Json) : Option α → Json
  | some value => encode value
  | none => .null

/-- A string that may be absent. -/
def optionalString (value : Option String) : Json := optional .string value

/-- A whole number. -/
def int (n : Int) : Json := .number (.int n)

/-- A floating-point number. -/
def float (x : Number.Binary64) : Json := .number (.float x)

end Json

end NoteGraph
