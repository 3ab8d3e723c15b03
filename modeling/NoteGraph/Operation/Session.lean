import NoteGraph.Operation.Basic

/-!
# Sessions

A session is what texts that are compiled one after another share: a count of morphs,
the nodes that have been declared, and the identifiers that records have claimed. A
record claims an identifier in a scope, which is a morph or none, with a signature of
its content. Within a scope an identifier is given once; claiming it again gives
numbered ones. In another scope a record with the same content gets the same
identifier, so that one record belongs to both scopes.
-/

namespace NoteGraph

/-- An identifier that has been claimed, the scopes it was given in and its signature. -/
structure Claim (σ : Type) where
  id : String
  scopes : List (Option String)
  signature : σ

/-- What the texts of a session share. -/
structure Session (σ : Type) where
  morphCount : Nat := 0
  declared : List String := []
  claims : List (Claim σ) := []

namespace Session

variable {σ : Type}

/-- A session before its first text. -/
def empty : Session σ := {}

/-- The number of the next morph. -/
def nextMorph (s : Session σ) : Nat × Session σ :=
  (s.morphCount + 1, { s with morphCount := s.morphCount + 1 })

/-- Whether a node is new to the session, which then knows it. -/
def declare (s : Session σ) (nodeId : String) : Bool × Session σ :=
  if s.declared.contains nodeId then (false, s)
  else (true, { s with declared := s.declared ++ [nodeId] })

/-- The session in which a node is declared. -/
def declaring (s : Session σ) (nodeId : String) : Session σ := (s.declare nodeId).2

/-- The identifiers that a record may be given, in order: the base identifier, and the
same with a number from two on. -/
def candidate (baseId : String) (n : Nat) : String :=
  if n = 0 then baseId else baseId ++ "_" ++ toString (n + 1)

/-- The claim of an identifier. -/
def claimOf? (s : Session σ) (id : String) : Option (Claim σ) := s.claims.find? (·.id == id)

/-- Whether an identifier can be given in a scope: it is unclaimed, or it was claimed by
a record of the same content and not in this scope. -/
def isFree [BEq σ] (s : Session σ) (scope : Option String) (signature : σ) (id : String) :
    Bool :=
  match s.claimOf? id with
  | none => true
  | some claim => !claim.scopes.contains scope && claim.signature == signature

/-- The first free candidate from the `n`-th on, or the one after `fuel` taken ones. -/
def firstFree [BEq σ] (s : Session σ) (baseId : String) (scope : Option String)
    (signature : σ) : Nat → Nat → String
  | 0, n => candidate baseId n
  | fuel + 1, n =>
    if s.isFree scope signature (candidate baseId n) then candidate baseId n
    else s.firstFree baseId scope signature fuel (n + 1)

/-- The claims with an identifier given in a scope. -/
def give (claims : List (Claim σ)) (id : String) (scope : Option String) (signature : σ) :
    List (Claim σ) :=
  if claims.any (·.id == id) then
    claims.map fun claim =>
      if claim.id == id then { claim with scopes := claim.scopes ++ [scope] } else claim
  else claims ++ [⟨id, [scope], signature⟩]

/-- The identifier given to a record. Of the candidates, one more than there are
claimed identifiers, at least one is unclaimed. -/
def claim [BEq σ] (s : Session σ) (baseId : String) (scope : Option String)
    (signature : σ) : String × Session σ :=
  let id := s.firstFree baseId scope signature s.claims.length 0
  (id, { s with claims := give s.claims id scope signature })

end Session

/-- The content of a record by which its identifier is shared between scopes. -/
inductive Signature where
  | attribute (name value : String) (unit adverb modality quantifier : Option String)
  | function (name : String)
  | relation (name : String) (weight : Number)
  deriving DecidableEq

/-- Signatures agree when all their parts do, weights by value. -/
def Signature.same : Signature → Signature → Bool
  | relation name weight, relation name' weight' => name == name' && weight.same weight'
  | a, b => decide (a = b)

end NoteGraph
