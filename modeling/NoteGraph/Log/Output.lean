import NoteGraph.Log.Basic

/-!
# Where notes go

Notes are written to the console and maybe to a file, as lines of text or as objects. A
log can be set up again: then its level and layout change, and lines that were written
stay. The lines are given without the time that starts them.
-/

namespace NoteGraph.Log

/-- A written line, without its time. -/
inductive Line where
  | text (line : String)
  | object (fields : List (String × Json))

/-- A line as a value. -/
def Line.toJson : Line → Json
  | text line => .string line
  | object fields => .object fields

/-- The logger above all others. -/
def rootLogger : String := "nodebook"

/-- The module that notes something under a logger: the last part of the logger's name,
or the module that sets up the log. -/
def moduleOf (logger : String) : String :=
  if logger = rootLogger then "logging_config"
  else String.ofList (logger.toList.reverse.takeWhile (· != '.')).reverse

/-- A log as it is set up, with the lines written so far. -/
structure Output where
  level : Level
  /-- Whether notes are written as objects. -/
  asJson : Bool
  /-- The name of the file, if there is one. -/
  fileName : Option String := none
  console : List Line := []
  file : List Line := []

namespace Output

/-- The least level of notes that are written; a log without a level of its own leaves
out what is less than a warning. -/
def threshold (o : Output) : Level := if o.level = unset then warning else o.level

/-- Whether notes of a level are written. -/
def accepts (o : Output) (level : Level) : Bool := 0 < level && o.threshold ≤ level

/-- The fields of a note. -/
def noteFields (e : Entry) : List (String × Json) :=
  [("level", .string (levelName e.level)), ("message", .string e.message)] ++
    (match e.context with
     | some j => [("graph_context", j)]
     | none => [])

/-- A text as one line or more. -/
def textLines (text : String) : List Line := (text.splitOn "\n").map Line.text

/-- A note on the console. -/
def consoleLines (o : Output) (e : Entry) : List Line :=
  if o.asJson then [.object (noteFields e)]
  else textLines (levelName e.level ++ " in " ++ moduleOf e.logger ++ ": " ++ e.message)

/-- A note in the file. -/
def fileLines (o : Output) (e : Entry) : List Line :=
  if o.asJson then [.object (noteFields e)]
  else textLines (e.logger ++ " - " ++ levelName e.level ++ " - " ++ e.message)

/-- Writes a note, if its level is high enough. -/
def write (o : Output) (e : Entry) : Output :=
  if o.accepts e.level then
    { o with
      console := o.console ++ o.consoleLines e
      file := if o.fileName.isSome then o.file ++ o.fileLines e else o.file }
  else o

/-- The note that a log is set up. -/
def started : Entry :=
  { level := info, logger := rootLogger, message := "Structured logging initialized" }

/-- Sets up a log. -/
def setUp (level : Level) (asJson : Bool) (fileName : Option String) : Output :=
  write { level, asJson, fileName } started

/-- Sets up a log anew after lines were written. -/
def setUpAgain (o : Output) (level : Level) (asJson : Bool) (fileName : Option String) :
    Output :=
  write { o with level, asJson, fileName } started

end Output

end NoteGraph.Log
