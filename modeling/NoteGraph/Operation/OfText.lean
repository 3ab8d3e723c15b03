import NoteGraph.Language.Statement
import NoteGraph.Operation.Session
import NoteGraph.Role

/-!
# From a text to operations

The operations of a text in the order of its lines. A node is declared by its heading,
or else, when a relation first mentions it, by a placeholder in front of the relation; a
heading anywhere in the text makes a placeholder needless. The description and the
currency of the graph come last.
-/

namespace NoteGraph

open NoteGraph.Language

/-- The session of texts. -/
abbrev TextSession := Session Signature

instance : BEq Signature := ⟨Signature.same⟩

/-- The operations of one thing after another, with one session. -/
def operationsOfAll {α : Type} (step : TextSession → α → List Operation × TextSession) :
    TextSession → List α → List Operation × TextSession
  | s, [] => ([], s)
  | s, a :: rest =>
    let (ops, s) := step s a
    let (more, s) := operationsOfAll step s rest
    (ops ++ more, s)

/-! ### Sections -/

/-- The names under which the relations of a booking are stored: a debit flows into an
account and a credit out of it. -/
def bookingRelations : List (String × String) :=
  [("debit", "has post_state"), ("credit", "has prior_state")]

/-- The operations of one target of a relation with the name `surface` in the text. A
target without an identifier gives none. -/
def targetOperations (node : String) (morph : Option String) (surface : String)
    (s : TextSession) (raw : String) : List Operation × TextSession :=
  let target := Target.ofRaw raw
  if target.nodeId.isEmpty then ([], s)
  else
    let stored := bookingRelations.lookup surface
    let name := stored.getD surface
    let (isNew, s) := s.declare target.nodeId
    let placeholder : Operation :=
      { id := target.nodeId
        action := .addNode {
          baseName := target.baseName
          displayName := target.displayName
          role := if stored.isSome then plainAccountRole else "class"
          adjective := target.adjective } }
    let (id, s) := s.claim ("rel_" ++ node ++ "_" ++ slug surface ++ "_" ++ target.nodeId)
      morph (.relation name target.weight)
    let relation : Operation :=
      { id
        action := .addRelation {
          source := node
          target := target.nodeId
          name
          weight := target.weight
          morphId := morph
          targetSurface := some target.surface } }
    (if isNew then [placeholder, relation] else [relation], s)

/-- The operations of a statement in a section of a node. -/
def statementOperations (node : String) (morph : Option String) (s : TextSession) :
    Statement → List Operation × TextSession
  | .description text =>
    ([{ id := node ++ "_description"
        action := .updateField { nodeId := node, field := "description", value := text } }], s)
  | .attribute line =>
    let (id, s) := s.claim
      ("attr_" ++ node ++ "_" ++ slug line.name ++ "_" ++ fingerprint line.value) morph
      (.attribute line.name line.value line.unit line.adverb line.modality line.quantifier)
    ([{ id
        action := .addAttribute {
          source := node
          name := line.name
          value := line.value
          unit := line.unit
          adverb := line.adverb
          modality := line.modality
          quantifier := line.quantifier
          morphId := morph } }], s)
  | .function name =>
    let (id, s) := s.claim ("func_" ++ node ++ "_" ++ slug name) morph (.function name)
    ([{ id, action := .applyFunction { source := node, name, morphId := morph } }], s)
  | .relation surface targets => operationsOfAll (targetOperations node morph surface) s targets

/-- The operations of the lines of a section. -/
def sectionOperations (node : String) (morph : Option String) (s : TextSession)
    (lines : List String) : List Operation × TextSession :=
  operationsOfAll (statementOperations node morph) s (statements false lines)

/-- The operations of a morph of a node. -/
def morphOperations (node : String) (s : TextSession) (part : MorphSection) :
    List Operation × TextSession :=
  let (number, s) := s.nextMorph
  let morphId := node ++ "_morph_" ++ slug part.name ++ "_" ++ toString number
  let morph : Operation :=
    { id := node ++ "_morph_" ++ part.name
      action := .addMorph { nodeId := node, morphId, name := part.name } }
  let (ops, s) := sectionOperations node (some morphId) s part.lines
  (morph :: ops, s)

/-- The heading of a node block. -/
def headingOf (block : NodeBlock) : Heading :=
  Heading.ofLine block.heading individualRole

/-- The operations of a node block. -/
def blockOperations (s : TextSession) (block : NodeBlock) : List Operation × TextSession :=
  let heading := headingOf block
  let node : Operation :=
    { id := heading.nodeId
      action := .addNode {
        baseName := heading.baseName
        displayName := heading.displayName
        role := heading.role
        adjective := heading.adjective
        quantifier := heading.quantifier } }
  let (ops, s) := sectionOperations heading.nodeId none (s.declaring heading.nodeId) block.body
  let (more, s) := operationsOfAll (morphOperations heading.nodeId) s block.morphs
  (node :: ops ++ more, s)

/-! ### Mindmaps -/

/-- The parent of an item: the last item above it that is indented less, or the root.
`above` holds the items that can still be parents, last first. -/
def parentOf (root : String) (above : List (String × Nat)) (indent : Nat) :
    String × List (String × Nat) :=
  let above := above.dropWhile fun (_, other) => indent ≤ other
  ((above.head?.map (·.1)).getD root, above)

/-- The operations of the items of a mindmap. -/
def itemOperations (root relation : String) :
    List (String × Nat) → TextSession → List MindmapItem → List Operation × TextSession
  | _, s, [] => ([], s)
  | above, s, item :: rest =>
    let itemId := cleanName item.name
    let (parent, above) := parentOf root above item.indent
    let s := s.declaring itemId
    let node : Operation :=
      { id := itemId
        action := .addNode { baseName := item.name, displayName := item.name, role := "class" }
        origin := mindmapOrigin }
    let (id, s) := s.claim ("rel_" ++ parent ++ "_" ++ cleanName relation ++ "_" ++ itemId) none
      (.relation relation (.int 1))
    let edge : Operation :=
      { id
        action := .addRelation { source := parent, target := itemId, name := relation }
        origin := mindmapOrigin }
    let (more, s) := itemOperations root relation ((itemId, item.indent) :: above) s rest
    (node :: edge :: more, s)

/-- The operations of a mindmap: those of its root, then those of its items. Lines that
do not start with a mindmap heading have none. -/
def mindmapOperations (s : TextSession) : List String → List Operation × TextSession
  | [] => ([], s)
  | first :: rest =>
    match MindmapHeading.ofLine? first with
    | none => ([], s)
    | some heading =>
      let rootId := cleanName heading.root
      let root : Operation :=
        { id := rootId
          action := .addNode {
            baseName := heading.root
            displayName := heading.root
            role := individualRole }
          origin := mindmapOrigin }
      let (ops, s) := itemOperations rootId heading.relation [] (s.declaring rootId)
        (rest.filterMap MindmapItem.ofLine?)
      (root :: ops, s)

/-! ### Texts -/

/-- A block of a text with its node blocks grouped. -/
inductive Part where
  | mindmap (lines : List String)
  | nodes (blocks : List NodeBlock)

/-- The part that a block is. -/
def Part.ofBlock : Block → Part
  | .mindmap lines => .mindmap lines
  | .plain lines => .nodes (outline lines)

/-- The node blocks of a part. -/
def Part.blocks : Part → List NodeBlock
  | mindmap _ => []
  | nodes blocks => blocks

/-- The operations of a part. -/
def partOperations (s : TextSession) : Part → List Operation × TextSession
  | .mindmap lines => mindmapOperations s lines
  | .nodes blocks => operationsOfAll blockOperations s blocks

/-- The operations of a text in a session, and the session after it. -/
def operationsIn (s : TextSession) (text : String) : List Operation × TextSession :=
  if text.isEmpty then ([], s)
  else
    let (lines, description) := cutDescription false (linesOfText text)
    let parts := (splitBlocks lines).map Part.ofBlock
    let headings := (parts.flatMap Part.blocks).map fun block => (headingOf block).nodeId
    let (ops, s) := operationsOfAll partOperations (headings.foldl Session.declaring s) parts
    let describe := description.toList.map fun text =>
      { id := "graph_description", action := .setDescription text : Operation }
    let currency := (findCurrency? false lines).toList.map fun currency =>
      { id := "graph_currency", action := .setCurrency currency : Operation }
    (ops ++ describe ++ currency, s)

/-- The operations of a text on its own. -/
def operationsOf (text : String) : List Operation := (operationsIn .empty text).1

end NoteGraph
