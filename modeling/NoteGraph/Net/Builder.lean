import NoteGraph.Net.Books
import NoteGraph.Net.Topology

/-!
# Building a net

A net under construction keeps the tables of its weights. They are made when the net is
compiled, and what is added later calls for compiling again. Questions for weights, for
books and for the shape of the net compile it if need be and are answered from the
tables, in which a place or transition is told by its position.
-/

namespace NoteGraph

/-- A net under construction, and the tables of its weights as they were made last. -/
structure NetBuilder where
  net : Net Number := {}
  /-- The table of the inputs with a row for each transition, and that of the outputs with
  a row for each place. -/
  tables? : Option (List (List Number) × List (List Number)) := none
  /-- Whether nothing was added since the tables were made. -/
  isCompiled : Bool := false
  deriving DecidableEq

namespace NetBuilder

/-- The net, compiled. -/
def compile [EntryOrder] (b : NetBuilder) : NetBuilder :=
  { b with tables? := some (b.net.inputTable, b.net.outputTable), isCompiled := true }

/-- The net, compiled unless it is. -/
def ensureCompiled [EntryOrder] (b : NetBuilder) : NetBuilder :=
  if b.isCompiled then b else b.compile

/-- A step of building. A step that cannot be taken changes nothing. -/
def build (b : NetBuilder) (step : Net Number → Except NetError (Net Number)) :
    Except NetError Unit × NetBuilder :=
  match step b.net with
  | .ok net => (.ok (), { b with net, isCompiled := false })
  | .error e => (.error e, b)

/-! ### What the tables show -/

/-- The weights of the transition at a position: its row in the table of the inputs, its
column in the table of the outputs, without the places that have no weight. -/
def weightsAt (b : NetBuilder) (direction : Direction) (position : Nat) : Marking Number :=
  match b.tables? with
  | none => []
  | some (inputs, outputs) =>
    let row := match direction with
      | .input => inputs.getD position []
      | .output => outputs.map (·.getD position 0)
    (b.net.placeNames.zip row).filter fun (_, weight) => !weight.same 0

/-- The arcs of the transition at a position as the tables show them, with one for all that
are parallel. -/
def arcsAt (b : NetBuilder) (direction : Direction) (t : String) (position : Nat) :
    List (Arc Number) :=
  (b.weightsAt direction position).map fun (place, weight) => ⟨direction, place, t, weight⟩

/-- The net as the tables show it. -/
def tabled (b : NetBuilder) : Net Number :=
  { b.net with
    arcs := b.net.transitionNames.zipIdx.flatMap fun (t, position) =>
      b.arcsAt .input t position ++ b.arcsAt .output t position }

/-! ### Questions -/

/-- The weights of a transition in one direction. -/
def weights [EntryOrder] (b : NetBuilder) (direction : Direction) (transition : String) :
    Except NetError (Marking Number) × NetBuilder :=
  let b := b.ensureCompiled
  match b.net.transitionNames.idxOf? transition with
  | some position => (.ok (b.weightsAt direction position), b)
  | none => (.error (.unknownTransition transition), b)

/-- The shape of the net. -/
def topology [EntryOrder] (b : NetBuilder) : Topology × NetBuilder :=
  let b := b.ensureCompiled
  (b.tabled.topology, b)

/-- Some balances after one posting, if its account has a balance that can be computed
with and rounded. -/
def post (b : NetBuilder) (decimals : Int) (m : Marking Number) (p : Posting Number) :
    Except NetError (Marking Number) :=
  if (m.get p.account).isTooLarge then .error (.outOfRange .tooLarge)
  else
    match Number.rounded decimals (b.net.balanceAfter m p) with
    | .ok balance => .ok (m.set p.account balance)
    | .error e => .error (.outOfRange e)

/-- Some balances after a transaction. -/
def book [EntryOrder] (b : NetBuilder) (decimals : Int) (m : Marking Number)
    (transaction : String) : Except NetError (Marking Number) × NetBuilder :=
  let b := b.ensureCompiled
  if b.net.hasTransition transaction then
    ((b.tabled.postings transaction).foldlM (b.post decimals) m, b)
  else (.error (.unknownTransition transaction), b)

/-- The totals of every transaction; without transactions nothing is compiled. -/
def transactionBalances [EntryOrder] (b : NetBuilder) (epsilon : Number) (decimals : Int) :
    Except NetError (List (TransactionBalance Number)) × NetBuilder :=
  let b := if b.net.transactions.isEmpty then b else b.ensureCompiled
  let totals := b.net.transactions.flatMap fun t =>
    [b.tabled.totalWeight .output t, b.tabled.totalWeight .input t]
  (if totals.any (·.carriesOut decimals) then .error (.outOfRange .carriedOut)
   else .ok (b.tabled.transactionBalances epsilon decimals), b)

/-- The accounting equation of some balances. -/
def accountingSummary (b : NetBuilder) (epsilon : Number) (decimals : Int)
    (m : Marking Number) : Except NetError (AccountingSummary Number) :=
  let totals := (plainAccountRole :: standardRoles).map (b.net.roleTotal m)
  if !m.isMeasurable b.net.placeNames then .error (.outOfRange .tooLarge)
  else if (b.net.remainder decimals m :: totals).any (·.carriesOut decimals) then
    .error (.outOfRange .carriedOut)
  else .ok (b.net.accountingSummary epsilon decimals m)

end NetBuilder

end NoteGraph
