import NoteGraph.Json.Basic
import NoteGraph.Language.Attribute
import NoteGraph.Language.Blocks
import NoteGraph.Language.Outline
import NoteGraph.Language.Relation

/-!
# Fields of what lines say

Headings, attribute lines, relation targets, blocks and outlines as JSON values.
-/

namespace NoteGraph.Language

/-- The fields of a heading. -/
def Heading.toJson (h : Heading) : Json :=
  .object [("node_id", .string h.nodeId), ("base_name", .string h.baseName),
    ("display_name", .string h.displayName), ("role", .string h.role),
    ("adjective", Json.optionalString h.adjective),
    ("quantifier", Json.optionalString h.quantifier)]

/-- The fields of an attribute line. -/
def AttributeLine.toJson (a : AttributeLine) : Json :=
  .object [("name", .string a.name), ("value", .string a.value),
    ("unit", Json.optionalString a.unit), ("quantifier", Json.optionalString a.quantifier),
    ("adverb", Json.optionalString a.adverb), ("modality", Json.optionalString a.modality)]

/-- The fields of a relation target. -/
def Target.toJson (t : Target) : Json :=
  .object [("node_id", .string t.nodeId), ("base_name", .string t.baseName),
    ("display_name", .string t.displayName), ("weight", .number t.weight),
    ("adjective", Json.optionalString t.adjective), ("surface", .string t.surface)]

/-- The fields of a node's section of an outline. -/
def NodeBlock.toJson (b : NodeBlock) : Json :=
  .object [("heading", .string b.heading),
    ("body", .object [("morph_name", .null), ("lines", Json.strings b.body)]),
    ("morphs", .array (b.morphs.map fun m =>
      .object [("morph_name", .string m.name), ("lines", Json.strings m.lines)]))]

/-- The fields of a block, with its outline if it has one. -/
def Block.toJson : Block → Json
  | .mindmap lines =>
    .object [("kind", .string "mindmap"), ("lines", Json.strings lines), ("tree", .null)]
  | .plain lines =>
    .object [("kind", .string "cnl"), ("lines", Json.strings lines),
      ("tree", .array ((outline lines).map NodeBlock.toJson))]

end NoteGraph.Language
