import NoteGraph.Net.Books

/-!
# Running a net

A transition fires when each of its input places holds what the transition takes; it
takes that and puts its weights into its output places. A transition without inputs
never fires. In an accounting net a transaction can always be booked, and every balance
is rounded. Counts that agree up to a small tolerance are taken as equal.
-/

namespace NoteGraph

/-- A net with the marking it is in. -/
structure Engine (α : Type) where
  net : Net α
  accounting : Bool
  /-- The decimals to which balances are rounded. -/
  decimals : Int
  marking : Marking α
  deriving DecidableEq

namespace Engine

variable {α : Type} [Quantity α]

/-- Whether a transition is booked rather than fired. -/
def books (e : Engine α) (t : String) : Bool := e.accounting && e.net.isTransaction t

/-- The marking in which a net starts. In an accounting net every transaction is booked
once. -/
def initialMarking [EntryOrder] (net : Net α) (accounting : Bool) (decimals : Int) : Marking α :=
  if accounting then
    let opening := net.places.map fun p => (p.name, Quantity.roundTo decimals p.tokens)
    net.transactions.foldl (net.book decimals) opening
  else net.places.map fun p => (p.name, Quantity.count p.tokens)

/-- A net in the marking in which it starts. -/
def start [EntryOrder] (net : Net α) (accounting : Bool) (decimals : Int) : Engine α :=
  ⟨net, accounting, decimals, initialMarking net accounting decimals⟩

/-- A net back in the marking in which it starts. -/
def restart [EntryOrder] (e : Engine α) : Engine α := start e.net e.accounting e.decimals

/-! ### Enabling -/

/-- Whether what a place holds suffices for a weight. -/
def covers (held weight : α) : Bool := Quantity.atMost (weight - Quantity.slack) held

/-- Whether a transition can fire from a marking. -/
def isEnabledIn [EntryOrder] (e : Engine α) (m : Marking α) (t : String) : Bool :=
  e.net.hasTransition t &&
    (e.books t ||
      (let needs := e.net.inputWeights t
       !needs.isEmpty && needs.all fun (place, weight) => covers (m.get place) weight))

/-- Whether a transition can fire. -/
def isEnabled [EntryOrder] (e : Engine α) (t : String) : Bool := e.isEnabledIn e.marking t

/-- The transitions that can fire, in the order of the net. -/
def enabledTransitions [EntryOrder] (e : Engine α) : List String :=
  e.net.transitionNames.filter e.isEnabled

/-- Whether no transition can fire. -/
def hasDeadlock [EntryOrder] (e : Engine α) : Bool := !e.net.transitionNames.any e.isEnabled

/-! ### Firing -/

/-- What a place holds after a change: a rounded balance, or a count, which is zero if it
is as good as zero. -/
def settle (e : Engine α) (value : α) : α :=
  if e.accounting then Quantity.roundTo e.decimals value
  else if Quantity.below (Quantity.magnitude value) Quantity.slack then 0
  else Quantity.count value

/-- A marking after something is taken from a place. -/
def take (e : Engine α) (m : Marking α) (arc : String × α) : Marking α :=
  m.set arc.1 (e.settle (m.get arc.1 - arc.2))

/-- A marking after something is put into a place. -/
def put (e : Engine α) (m : Marking α) (arc : String × α) : Marking α :=
  m.set arc.1 (e.settle (m.get arc.1 + arc.2))

/-- The marking that a transition leads to, whether it can fire or not. -/
def successor [EntryOrder] (e : Engine α) (m : Marking α) (t : String) : Marking α :=
  if e.books t then e.net.book e.decimals m t
  else (e.net.outputWeights t).foldl e.put ((e.net.inputWeights t).foldl e.take m)

/-- Fires a transition if it can fire. -/
def fire [EntryOrder] (e : Engine α) (t : String) : Engine α :=
  if e.isEnabled t then { e with marking := e.successor e.marking t } else e

/-- What each place holds, in the order of places. -/
def holdings (e : Engine α) (m : Marking α) : List α := e.net.placeNames.map m.get

end Engine

/-! ### Given markings -/

namespace Engine

/-- Whether a transition can fire from a given marking; the places are looked at in
order up to the first that does not hold enough. -/
def isEnabledGiven [EntryOrder] (e : Engine Number) (m : Marking Number) (t : String) :
    Except NetError Bool :=
  let needs := if e.books t then [] else e.net.inputWeights t
  match needs.find? fun (place, weight) =>
      (m.get place).isTooLarge || !covers (m.get place) weight with
  | some (place, _) =>
    if (m.get place).isTooLarge then .error (.outOfRange .tooLarge) else .ok false
  | none => .ok (e.isEnabledIn m t)

/-- The marking that a transition leads to from a given one. -/
def successorGiven [EntryOrder] (e : Engine Number) (m : Marking Number) (t : String) :
    Except NetError (Marking Number) :=
  if !e.net.hasTransition t then .error (.unknownTransition t)
  else if m.isMeasurable ((e.net.postings t).map (·.account)) then .ok (e.successor m t)
  else .error (.outOfRange .tooLarge)

end Engine

end NoteGraph
