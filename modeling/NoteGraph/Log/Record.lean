import NoteGraph.Calendar.Instant
import NoteGraph.Json.Printer
import NoteGraph.Log.Level
import NoteGraph.Log.Template

/-!
# Log records

A record of something noted in a file of a program: when, where, how important, and a
message, maybe with what it says of a graph and with the exception that was caught. A
record is written as one line.
-/

namespace NoteGraph.Log

/-- An exception that was caught. -/
structure Caught where
  kind : String
  text : String
  deriving DecidableEq

/-- A record. -/
structure Record where
  level : Level
  path : String
  line : Int
  template : Json
  values : List Json := []
  /-- Seconds since the start of 1970. -/
  created : Number
  context : Option Json := none
  caught : Option Caught := none

/-- Why a record cannot be written. -/
inductive RecordError where
  | time (error : InstantError)
  | template (error : TemplateError)
  deriving DecidableEq

/-- What is reported of a record that cannot be written. -/
def RecordError.message : RecordError → String
  | time e => e.message
  | template e => e.message

/-- The name of a file without its folders. -/
def fileName (path : String) : String :=
  String.ofList (path.toList.reverse.takeWhile (· != '/')).reverse

/-- The name of a file without its last extension; dots at the start of a name start no
extension. -/
def moduleName (file : String) : String :=
  let dots := file.toList.takeWhile (· = '.')
  let name := file.toList.dropWhile (· = '.')
  if name.contains '.' then
    String.ofList (dots ++ ((name.reverse.dropWhile (· != '.')).drop 1).reverse)
  else file

/-- The kinds of exceptions that say so if they come without a text. -/
def detailedKinds : List String := ["SyntaxError", "IndentationError", "TabError"]

/-- An exception as it is reported. The text of a missing key is quoted. -/
def Caught.report (e : Caught) : String :=
  let text :=
    if e.kind = "KeyError" then Text.quoted e.text
    else if detailedKinds.contains e.kind && e.text.isEmpty then "<no detail available>"
    else e.text
  if text.isEmpty then e.kind else e.kind ++ ": " ++ text

/-- The time of a record. -/
def Record.time (r : Record) : Except InstantError String :=
  (Instant.ofSeconds r.created).bind Instant.text

/-- The code points of the message of a record. -/
def Record.message (r : Record) : Except TemplateError (List Nat) :=
  fill r.template.plainText r.values

/-- Code points between quotes. -/
def pointsText (points : List Nat) : String :=
  "\"" ++ String.ofList (points.flatMap Json.pointText) ++ "\""

/-- The fields of a record, with their values in writing. -/
def Record.writtenFields (r : Record) : Except RecordError (List (String × String)) := do
  let time ← match r.time with
    | .ok time => pure time
    | .error e => throw (.time e)
  let message ← match r.message with
    | .ok message => pure message
    | .error e => throw (.template e)
  let file := fileName r.path
  let written (j : Json) : String := Json.lineText .allButAscii j
  let context := match r.context with
    | some j => [("graph_context", written j)]
    | none => []
  let caught := match r.caught with
    | some e => [("exception", written (.string e.report))]
    | none => []
  return [("timestamp", written (.string time)), ("level", written (.string (levelName r.level))),
    ("module", written (.string (moduleName file))), ("filename", written (.string file)),
    ("line", written (Json.int r.line)), ("message", pointsText message)] ++ context ++ caught

/-- A record on one line. -/
def Record.lineText (r : Record) : Except RecordError String := do
  let fields ← r.writtenFields
  return "\x7b" ++ ", ".intercalate (fields.map fun (name, value) =>
    "\"" ++ name ++ "\": " ++ value) ++ "\x7d"

end NoteGraph.Log
