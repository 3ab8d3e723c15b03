import NoteGraph.Schema.Block

/-!
# Fields of schemas

Types, catalogs and the results of reading schema blocks as JSON values.
-/

namespace NoteGraph.Schema

/-- A truth value that may be absent. -/
def optionalBool : Option Bool → Json := Json.optional .bool

/-- The fields of a type of nodes. -/
def NodeType.toJson (t : NodeType) : Json :=
  .object [("name", .string t.name), ("description", .string t.description),
    ("parent_types", Json.strings t.parentTypes)]

/-- The fields of a type of relations. -/
def RelationType.toJson (t : RelationType) : Json :=
  .object [("name", .string t.name), ("description", .string t.description),
    ("domain", Json.strings t.domain), ("range", Json.strings t.range),
    ("symmetric", optionalBool t.symmetric), ("transitive", optionalBool t.transitive),
    ("inverse_name", Json.optionalString t.inverseName), ("aliases", Json.strings t.aliases)]

/-- The fields of a part of a composite value. -/
def Component.toJson (c : Component) : Json :=
  .object [("type", .string c.type), ("unit", Json.optionalString c.unit),
    ("description", .string c.description)]

/-- The fields of a type of attributes. -/
def AttributeType.toJson (t : AttributeType) : Json :=
  .object [("name", .string t.name), ("data_type", .string t.dataType),
    ("description", .string t.description), ("unit", Json.optionalString t.unit),
    ("domain", Json.strings t.domain),
    ("allowed_values", Json.optional Json.strings t.allowedValues),
    ("complex_type", Json.optionalString t.complexType),
    ("structure", Json.optional (fun parts =>
      .object (parts.map fun (name, part) => (name, part.toJson))) t.parts)]

/-- The fields of a type of transitions. -/
def TransitionType.toJson (t : TransitionType) : Json :=
  .object [("name", .string t.name), ("description", .string t.description),
    ("inputs", Json.strings t.inputs), ("outputs", Json.strings t.outputs)]

/-- The fields of a type of functions. -/
def FunctionType.toJson (t : FunctionType) : Json :=
  .object [("name", .string t.name), ("expression", .string t.expression),
    ("scope", Json.strings t.scope), ("description", Json.optionalString t.description),
    ("required_attributes", Json.strings t.requiredAttributes)]

/-- The fields of a catalog. -/
def Catalog.toJson (c : Catalog) : Json :=
  .object [("node_types", .array (c.nodeTypes.map NodeType.toJson)),
    ("relation_types", .array (c.relationTypes.map RelationType.toJson)),
    ("attribute_types", .array (c.attributeTypes.map AttributeType.toJson)),
    ("transition_types", .array (c.transitionTypes.map TransitionType.toJson)),
    ("function_types", .array (c.functionTypes.map FunctionType.toJson))]

/-- The fields of a faulty line. -/
def BlockError.toJson (e : BlockError) : Json :=
  .object [("message", .string e.message), ("line", Json.int e.line)]

/-- The fields of what a block declares. -/
def BlockResult.toJson (r : BlockResult) : Json :=
  .object [("schemas", r.catalog.toJson), ("errors", .array (r.errors.map BlockError.toJson))]

end NoteGraph.Schema
