import NoteGraph.Schema.Basic
import NoteGraph.Text.Blank
import NoteGraph.Text.Lowercase

/-!
# Schema blocks

A schema block declares types, one to a line: a word for the kind of type, a colon, and
fields separated by commas. Quotes keep commas inside a field. The first fields are
positional; a field `key: value` is an option, and the value of a list option has bars
between its items. Lines that declare nothing are reported by their numbers.
-/

namespace NoteGraph.Schema

open Text

/-! ### Fields -/

/-- The pieces of a text between the commas outside of quotes, without their quotes.
`quote` is the open quote, and `current` holds the piece so far, last character first. -/
def cutFields (quote : Option Char) (current : List Char) : List Char → List (List Char)
  | [] => [current.reverse]
  | c :: rest =>
    match quote with
    | some mark =>
      if c = mark then cutFields none current rest
      else cutFields quote (c :: current) rest
    | none =>
      if c = '\'' || c = '"' then cutFields (some c) current rest
      else if c = ',' then current.reverse :: cutFields none [] rest
      else cutFields none (c :: current) rest

/-- The fields of a text, trimmed, empty ones left out. -/
def splitFields (text : String) : List String :=
  ((cutFields none [] text.toList).map trimmed).filter (!·.isEmpty)

/-- The option that a field is, if it has a colon that is not its first character. The
key is in lower case. -/
def optionOf? (part : String) : Option (String × String) :=
  let cs := part.toList
  let key := cs.takeWhile (· != ':')
  if key.isEmpty || key.length = cs.length then none
  else some (String.ofList (lower (trim key)), trimmed (cs.drop (key.length + 1)))

/-- The value of an option, the last one given. -/
def option? (fields : List String) (key : String) : Option String :=
  (fields.filterMap optionOf?).reverse.lookup key

/-- The items of a list option. -/
def listOption (fields : List String) (key : String) : List String :=
  match option? fields key with
  | none => []
  | some value => ((value.toList.splitOn '|').map trimmed).filter (!·.isEmpty)

/-- The value of an option that is given and not empty. -/
def filledOption? (fields : List String) (key : String) : Option String :=
  (option? fields key).filter (!·.isEmpty)

/-- An option that is true if it says so, in any case. -/
def flagOption? (fields : List String) (key : String) : Option Bool :=
  (option? fields key).map fun value => lower value.toList == "true".toList

/-- The description: the first field without a colon. -/
def descriptionField (fields : List String) : String :=
  (fields.find? fun part => !part.toList.contains ':').getD ""

/-! ### Declarations -/

/-- A declared type. -/
inductive Entry where
  | node (type : NodeType)
  | relation (type : RelationType)
  | attributeEntry (type : AttributeType)
  | transition (type : TransitionType)
  | function (type : FunctionType)
  deriving DecidableEq

/-- What is wrong with a line. -/
inductive BlockFault where
  | missingPrefix
  | unknownPrefix (word : String)
  | missingFields (kind : String) (fields : List String)
  deriving DecidableEq

/-- What is reported of a fault. -/
def BlockFault.message : BlockFault → String
  | missingPrefix => "Missing type prefix (e.g., \"nodeType:\")"
  | unknownPrefix word => "Unknown type prefix \"" ++ word ++ "\""
  | missingFields kind fields =>
    kind ++ " requires at least: " ++ ", ".intercalate fields

/-- A type of nodes from its fields. -/
def nodeEntry : List String → Except BlockFault Entry
  | name :: rest =>
    .ok (.node {
      name, description := descriptionField rest, parentTypes := listOption rest "parent" })
  | [] => .error (.missingFields "nodeType" ["name"])

/-- A type of relations from its fields. -/
def relationEntry : List String → Except BlockFault Entry
  | name :: rest =>
    .ok (.relation {
      name
      description := descriptionField rest
      domain := listOption rest "domain"
      range := listOption rest "range"
      symmetric := flagOption? rest "symmetric"
      transitive := flagOption? rest "transitive"
      inverseName := option? rest "inverse"
      aliases := listOption rest "aliases" })
  | [] => .error (.missingFields "relationType" ["name"])

/-- A type of attributes from its fields. -/
def attributeEntry : List String → Except BlockFault Entry
  | name :: dataType :: rest =>
    .ok (.attributeEntry {
      name
      dataType
      description := descriptionField rest
      unit := filledOption? rest "unit"
      domain := listOption rest "domain"
      allowedValues := (filledOption? rest "values").map fun _ => listOption rest "values" })
  | _ => .error (.missingFields "attributeType" ["name", "data_type"])

/-- A type of transitions from its fields. -/
def transitionEntry : List String → Except BlockFault Entry
  | name :: rest =>
    .ok (.transition {
      name
      description := descriptionField rest
      inputs := listOption rest "inputs"
      outputs := listOption rest "outputs" })
  | [] => .error (.missingFields "transitionType" ["name"])

/-- A type of functions from its fields. -/
def functionEntry : List String → Except BlockFault Entry
  | name :: expression :: rest =>
    .ok (.function {
      name, expression, scope := listOption rest "scope"
      description := option? rest "description" })
  | _ => .error (.missingFields "functionType" ["name", "expression"])

/-- The readers of declarations by the words that start their lines. -/
def entryReaders : List (String × (List String → Except BlockFault Entry)) :=
  [("nodetype", nodeEntry), ("relationtype", relationEntry),
   ("attributetype", attributeEntry), ("transitiontype", transitionEntry),
   ("functiontype", functionEntry)]

/-- What a line declares; nothing if it is blank or a comment. -/
def entryOfLine? (line : List Char) : Option (Except BlockFault Entry) :=
  let raw := trim line
  if raw.isEmpty || raw.head? = some '#' then none
  else
    let front := raw.takeWhile (· != ':')
    if front.length = raw.length then some (.error .missingPrefix)
    else
      let word := String.ofList (lower (trim front))
      match entryReaders.lookup word with
      | none => some (.error (.unknownPrefix word))
      | some read => some (read (splitFields (trimmed (raw.drop (front.length + 1)))))

/-! ### Blocks -/

/-- A fault and the number of its line. -/
structure BlockError where
  fault : BlockFault
  line : Nat
  deriving DecidableEq

/-- What is reported of a faulty line. -/
def BlockError.message (e : BlockError) : String :=
  "Line " ++ toString e.line ++ ": " ++ e.fault.message

/-- The types that a block declares and its faulty lines. -/
structure BlockResult where
  catalog : Catalog := {}
  errors : List BlockError := []
  deriving DecidableEq

/-- A catalog with one more type. -/
def Catalog.add (c : Catalog) : Entry → Catalog
  | .node type => { c with nodeTypes := c.nodeTypes ++ [type] }
  | .relation type => { c with relationTypes := c.relationTypes ++ [type] }
  | .attributeEntry type => { c with attributeTypes := c.attributeTypes ++ [type] }
  | .transition type => { c with transitionTypes := c.transitionTypes ++ [type] }
  | .function type => { c with functionTypes := c.functionTypes ++ [type] }

/-- A result with what one more line declares. -/
def BlockResult.addLine (r : BlockResult) (line : List Char) (number : Nat) : BlockResult :=
  match entryOfLine? line with
  | none => r
  | some (.ok entry) => { r with catalog := r.catalog.add entry }
  | some (.error fault) => { r with errors := r.errors ++ [⟨fault, number⟩] }

/-- What a block declares. -/
def readBlock (text : String) : BlockResult :=
  ((lines text.toList).zipIdx 1).foldl (fun r (line, number) => r.addLine line number) {}

/-- What several blocks declare together; the last declaration of a name holds. -/
def mergeBlocks (results : List BlockResult) : BlockResult :=
  results.foldl
    (fun merged r => ⟨merged.catalog.mergedWith r.catalog, merged.errors ++ r.errors⟩) {}

end NoteGraph.Schema
