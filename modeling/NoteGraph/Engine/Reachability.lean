import NoteGraph.Engine.Basic
import Std.Data.HashSet

/-!
# Bounded reachability

The markings that a token net can reach from its marking are explored breadth first, up
to a limit on their number. A search that finds more than that many is cut off and says
so; what it has found until then still holds.
-/

namespace NoteGraph

/-- What a search has found. -/
structure ReachabilityReport (α : Type) where
  states : Nat
  /-- The markings from which no transition can fire, in the order of the search. -/
  deadMarkings : List (Marking α)
  fireable : List String
  unfired : List String
  truncated : Bool

/-- Whether a marking was found from which no transition can fire. -/
def ReachabilityReport.deadlockReachable {α : Type} (r : ReachabilityReport α) : Bool :=
  !r.deadMarkings.isEmpty

/-- A marking that a search finds. A count that is no number is equal only to itself, so it counts
which firing of the search it comes from. -/
structure Finding (α : Type) where
  marking : Marking α
  /-- The places that the search has changed, each with the last firing that changed it. -/
  changed : List (String × Nat) := []
  deriving DecidableEq

namespace Finding

variable {α : Type} [Quantity α]

/-- The last firing that changed a place, zero if none did. -/
def lastChange (f : Finding α) (place : String) : Nat := (f.changed.lookup place).getD 0

/-- What the places hold in the order of places, and of what is no number the firing that it comes
from. -/
def key (e : Engine α) (f : Finding α) : List (α × Option Nat) :=
  e.net.placeNames.map fun place =>
    let held := f.marking.get place
    (held, if Quantity.isNumber held then none else some (f.lastChange place))

/-- What a transition leads to, as the firing of a search with some number. -/
def fire [EntryOrder] (e : Engine α) (f : Finding α) (t : String) (firing : Nat) : Finding α :=
  { marking := e.successor f.marking t
    changed := ((e.net.postings t).map (·.account)).foldl
      (fun changed place => Keyed.put changed place firing) f.changed }

end Finding

/-- The state of a search: the keys of the markings found, the markings that are still to be left,
in the order in which they were found, and the results. -/
structure Search (α : Type) [BEq α] [Hashable α] where
  visited : Std.HashSet (List (α × Option Nat))
  queue : List (Finding α)
  /-- The markings found after those of the queue, last first. -/
  found : List (Finding α) := []
  /-- The number of firings so far. -/
  firings : Nat := 0
  fired : List String := []
  dead : List (Marking α) := []
  truncated : Bool := false

namespace Search

variable {α : Type} [BEq α] [Hashable α] [Quantity α]

/-- A search that has found nothing but the marking of an engine. -/
def start (e : Engine α) : Search α :=
  { visited := (∅ : Std.HashSet _).insert (Finding.key e ⟨e.marking, []⟩)
    queue := [⟨e.marking, []⟩] }

/-- The next marking to leave. -/
def next? (s : Search α) : Option (Finding α × Search α) :=
  match s.queue with
  | f :: rest => some (f, { s with queue := rest })
  | [] =>
    match s.found.reverse with
    | f :: rest => some (f, { s with queue := rest, found := [] })
    | [] => none

/-- Leaves a marking by a transition that can fire. -/
def follow [EntryOrder] (e : Engine α) (limit : Nat) (f : Finding α) (s : Search α) (t : String) :
    Search α :=
  let s := { s with
    firings := s.firings + 1
    fired := if s.fired.contains t then s.fired else t :: s.fired }
  let next := f.fire e t s.firings
  let key := next.key e
  if s.visited.contains key then s
  else if limit ≤ s.visited.size then { s with truncated := true }
  else { s with visited := s.visited.insert key, found := next :: s.found }

/-- Leaves a marking in every way. -/
def leave [EntryOrder] (e : Engine α) (limit : Nat) (f : Finding α) (s : Search α) : Search α :=
  match e.net.transitionNames.filter (e.isEnabledIn f.marking) with
  | [] => { s with dead := f.marking :: s.dead }
  | enabled => enabled.foldl (follow e limit f) s

/-- Leaves the markings of the queue and those found on the way. No more markings are
found than the limit, so `fuel` for each of them suffices. -/
def run [EntryOrder] (e : Engine α) (limit : Nat) : Nat → Search α → Search α
  | 0, s => s
  | fuel + 1, s =>
    match s.next? with
    | none => s
    | some (f, s) => run e limit fuel (leave e limit f s)

end Search

/-- Why a net cannot be explored. -/
inductive ReachabilityError where
  | accountingNet
  | limitOutOfRange (error : Number.RangeError)
  | limitNotPositive (limit : Int)
  deriving DecidableEq

/-- What is reported of a net that cannot be explored. -/
def ReachabilityError.message : ReachabilityError → String
  | accountingNet => "Reachability analysis requires a token net, not an accounting net."
  | limitOutOfRange e => e.message
  | limitNotPositive limit => "max_states must be > 0, got " ++ toString limit

namespace Engine

variable {α : Type} [BEq α] [Hashable α] [Quantity α]

/-- The markings reachable from the marking of an engine, at most `limit` of them. -/
def reachable [EntryOrder] (e : Engine α) (limit : Nat) : ReachabilityReport α :=
  let s := Search.run e limit limit (Search.start e)
  { states := s.visited.size
    deadMarkings := s.dead.reverse
    fireable := e.net.transitionNames.filter s.fired.contains
    unfired := e.net.transitionNames.filter fun t => !s.fired.contains t
    truncated := s.truncated }

/-- Explores a token net up to the whole part of a limit. -/
def explore [EntryOrder] (e : Engine α) (limit : Number) :
    Except ReachabilityError (ReachabilityReport α) := do
  if e.accounting then throw .accountingNet
  let limit ← limit.wholePart.mapError .limitOutOfRange
  if limit ≤ 0 then throw (.limitNotPositive limit)
  return e.reachable limit.toNat

end Engine

/-- A marking as an object. -/
def Marking.toJson (m : Marking Number) : Json :=
  .object (m.map fun (place, value) => (place, .number value))

/-- The fields of a report. -/
def ReachabilityReport.toJson (r : ReachabilityReport Number) : Json :=
  .object [("states", Json.int r.states),
    ("dead_markings", .array (r.deadMarkings.map Marking.toJson)),
    ("fireable_transitions", Json.strings r.fireable),
    ("dead_transitions", Json.strings r.unfired), ("truncated", .bool r.truncated),
    ("deadlock_reachable", .bool r.deadlockReachable)]

end NoteGraph
