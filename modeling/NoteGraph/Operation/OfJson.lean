import NoteGraph.Operation.Basic

/-!
# Reading operations

A stream of operations can be stored as objects and read again. Fields that have a
default may be left out, and fields that an action does not know are not looked at.
-/

namespace NoteGraph

/-- Why an object is no operation. -/
inductive OperationReadError where
  | unsupported (error : UnsupportedOperation)
  | missing (field : String)
  deriving DecidableEq

namespace Operation

/-- A field that must be a text. -/
def readString (fields : List (String × Json)) (name : String) :
    Except OperationReadError String :=
  match Json.field? fields name with
  | some (.string s) => .ok s
  | _ => .error (.missing name)

/-- A field that may be a text. -/
def readString? (fields : List (String × Json)) (name : String) : Option String :=
  match Json.field? fields name with
  | some (.string s) => some s
  | _ => none

/-- A field that may be a list of texts. -/
def readStrings (fields : List (String × Json)) (name : String) : List String :=
  match Json.field? fields name with
  | some (.array items) => items.filterMap fun item =>
      match item with
      | .string s => some s
      | _ => none
  | _ => []

/-- A weight, which is one if it is left out. -/
def readWeight (fields : List (String × Json)) : Number :=
  match Json.field? fields "weight" with
  | some (.number n) => n
  | some (.bool false) => .int 0
  | _ => .int 1

/-- The action of a kind that some fields describe. -/
def readAction (kind : String) (fields : List (String × Json)) :
    Except OperationReadError Action := do
  let required := readString fields
  let optional := readString? fields
  match kind with
  | "AddNode" =>
    return .addNode ⟨← required "base_name", ← required "display_name",
      (optional "role").getD "",
      optional "adjective", optional "quantifier", readStrings fields "parent_types"⟩
  | "AddMorph" =>
    return .addMorph ⟨← required "node_id", ← required "morph_id", ← required "name"⟩
  | "AddRelation" =>
    return .addRelation ⟨← required "source", ← required "target", ← required "name",
      readWeight fields, optional "morph_id", optional "target_surface"⟩
  | "AddAttribute" =>
    return .addAttribute ⟨← required "source", ← required "name", ← required "value",
      optional "unit", optional "adverb", optional "modality", optional "quantifier",
      optional "morph_id"⟩
  | "ApplyFunction" =>
    return .applyFunction ⟨← required "source", ← required "name", optional "morph_id"⟩
  | "UpdateNodeField" =>
    return .updateField ⟨← required "node_id", ← required "field", ← required "value"⟩
  | "SetGraphDescription" => return .setDescription (← required "description")
  | "SetCurrency" => return .setCurrency (← required "currency")
  | _ => throw (.unsupported ⟨kind⟩)

/-- The operation that a value describes. -/
def ofJson (j : Json) : Except OperationReadError Operation := do
  let fields := match j with
    | .object fields => fields
    | _ => []
  let payload := match Json.field? fields "payload" with
    | some (.object payload) => payload
    | _ => []
  let action ← readAction (← readString fields "type") payload
  return { id := (readString? fields "id").getD ""
           action
           origin := (readString? fields "origin").getD textOrigin }

end Operation

end NoteGraph
