import NoteGraph.Operation.Basic
import NoteGraph.Schema.Vocabulary
import NoteGraph.Text.Blank

/-!
# Validation

A stream of operations is checked against a catalog. What is found is advice and stops
nothing: spellings that fall together in one node come first, then types, values and
sources that the catalog does not know or allow, in the order of the stream.
-/

namespace NoteGraph.Schema

/-- What is found about an operation. -/
inductive Finding where
  | surfaceConsolidation (surface first : String)
  | unknownNodeType (role : String) (known : List String)
  | unknownAttribute (name : String)
  | invalidValue (value name : String) (allowed : List String)
  | unknownRelation (name : String)
  | domainViolation (name : String) (domain : List String) (source role : String)
  | unknownFunction (name : String)
  deriving DecidableEq

/-- A finding and the identifier of its operation or node. -/
structure Warning where
  finding : Finding
  id : String
  deriving DecidableEq

/-- The word for a kind of finding. -/
def Finding.kind : Finding → String
  | surfaceConsolidation .. => "surface_consolidation"
  | unknownNodeType .. => "unknown_node_type"
  | unknownAttribute _ => "unknown_attribute"
  | invalidValue .. => "invalid_value"
  | unknownRelation _ => "unknown_relation"
  | domainViolation .. => "domain_violation"
  | unknownFunction _ => "unknown_function"

/-- What is said of an operation or node. -/
def Warning.message (w : Warning) : String :=
  match w.finding with
  | .surfaceConsolidation surface first =>
    "\"" ++ surface ++ "\" and \"" ++ first ++ "\" both resolve to node \"" ++ w.id ++ "\""
  | .unknownNodeType role known =>
    "Unknown node type \"" ++ role ++ "\". Known types: " ++ ", ".intercalate known
  | .unknownAttribute name => "Unknown attribute type \"" ++ name ++ "\""
  | .invalidValue value name allowed =>
    "Value \"" ++ value ++ "\" is not allowed for \"" ++ name ++ "\" (allowed: " ++
      ", ".intercalate allowed ++ ")"
  | .unknownRelation name => "Unknown relation type \"" ++ name ++ "\""
  | .domainViolation name domain source role =>
    "Relation \"" ++ name ++ "\" expects a source of type " ++ " | ".intercalate domain ++
      ", but \"" ++ source ++ "\" is \"" ++ role ++ "\""
  | .unknownFunction name => "Unknown function type \"" ++ name ++ "\""

/-- A warning with its kind and message. -/
def Warning.toJson (w : Warning) : Json :=
  .object [("kind", .string w.finding.kind), ("message", .string w.message),
    ("operation_id", .string w.id)]

/-! ### Spellings -/

/-- How an operation spells a node. -/
def spelling? (op : Operation) : Option (String × String) :=
  match op.action with
  | .addNode record => some (op.id, record.displayName)
  | .addRelation record => record.targetSurface.map fun surface => (record.target, surface)
  | _ => none

/-- A warning for each spelling of a node that is not its first, given those seen. -/
def consolidations (seen : List (String × String)) : List (String × String) → List Warning
  | [] => []
  | (node, surface) :: rest =>
    if seen.contains (node, surface) then consolidations seen rest
    else
      let more := consolidations (seen ++ [(node, surface)]) rest
      match seen.lookup node with
      | some first => ⟨.surfaceConsolidation surface first, node⟩ :: more
      | none => more

/-! ### Types, values and sources -/

/-- The roles that need no declaration. -/
def builtinRoles : List String := ["individual", "class"]

/-- A value without blanks around it and without one pair of quotes. -/
def stripQuotes (value : String) : String :=
  let cs := Text.trim value.toList
  match cs with
  | mark :: rest =>
    if (mark = '\'' || mark = '"') && rest.getLast? = some mark then
      String.ofList rest.dropLast
    else String.ofList cs
  | [] => ""

/-- The role with which a stream first declares a node. -/
def declaredRole? (ops : List Operation) (id : String) : Option String :=
  ops.findSome? fun op => if op.id == id then op.node?.map (·.role) else none

/-- What is found about a relation whose source has a role or is not declared. -/
def relationFinding? (c : Catalog) (record : RelationRecord) (role : Option String) :
    Option Finding :=
  match c.relationType? record.name with
  | none => some (.unknownRelation record.name)
  | some type =>
    match role with
    | none => none
    | some role =>
      if type.domain.isEmpty then none
      else
        let ancestors := c.roleAncestors role
        if type.domain.any ancestors.contains then none
        else some (.domainViolation record.name type.domain record.source role)

/-- What is found about an operation of a stream. -/
def finding? (c : Catalog) (ops : List Operation) (op : Operation) : Option Finding :=
  match op.action with
  | .addNode record =>
    if record.role.isEmpty || builtinRoles.contains record.role ||
        (c.nodeType? record.role).isSome then none
    else some (.unknownNodeType record.role (c.nodeTypes.map (·.name)))
  | .addAttribute record =>
    match c.attributeType? record.name with
    | none => some (.unknownAttribute record.name)
    | some type =>
      type.allowedValues.bind fun allowed =>
        if allowed.contains (stripQuotes record.value) then none
        else some (.invalidValue record.value record.name allowed)
  | .addRelation record => relationFinding? c record (declaredRole? ops record.source)
  | .applyFunction record =>
    if (c.functionType? record.name).isSome then none else some (.unknownFunction record.name)
  | _ => none

/-- All that is found about a stream of operations. -/
def validate (c : Catalog) (ops : List Operation) : List Warning :=
  consolidations [] (ops.filterMap spelling?) ++
    ops.filterMap fun op => (finding? c ops op).map fun finding => ⟨finding, op.id⟩

end NoteGraph.Schema
