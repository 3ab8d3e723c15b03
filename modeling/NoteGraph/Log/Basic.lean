import NoteGraph.Json.Basic
import NoteGraph.Log.Level

/-!
# Log records

What the parts of the program note while they work, each part under the name of its
logger. A note has a level, and only notes at or above a logger's level are kept.
-/

namespace NoteGraph.Log

/-- A note of a logger, with what it says of the graph. -/
structure Entry where
  level : Level
  logger : String
  message : String
  context : Option Json := none

/-- The fields of a note. -/
def Entry.toJson (e : Entry) : Json :=
  .object [("level", .string (levelName e.level)), ("logger", .string e.logger),
    ("message", .string e.message), ("graph_context", e.context.getD .null)]

end NoteGraph.Log
