import NoteGraph.Engine.Reachability
import NoteGraph.Net.OfGraph

/-!
# Simulating a graph

A simulation runs the net of a graph, as an accounting net if the graph has
transactions and nothing else is asked for. It starts with a number of tokens, which a
reset can change; then the net is built anew.
-/

namespace NoteGraph

/-- The settings of a simulation. -/
structure SimulationSettings where
  initialTokens : Number := .int 1
  /-- By how much the two sides of balanced books may differ. -/
  balanceEpsilon : Number := .float (Number.Decimal.mk false 1 (-3)).toBinary64
  monetaryDecimals : Int := 2
  maxReachableStates : Int := 10000
  deriving DecidableEq

/-- A graph, its running net and the tokens it started with. -/
structure Simulation where
  graph : Graph
  settings : SimulationSettings
  initialTokens : Number
  engine : Engine Number
  deriving DecidableEq

namespace Simulation

/-- Starts the simulation of a graph, and what is noted of it. -/
def start [EntryOrder] (graph : Graph) (tokens : Option Number) (accounting : Option Bool)
    (settings : SimulationSettings) : Except NetError Simulation × List Log.Entry :=
  let accounting := accounting.getD graph.hasTransactions
  let tokens := tokens.getD settings.initialTokens
  if tokens.lt 0 then (.error (.negativeTokens tokens), [])
  else
    let (net, notes) := graph.toNet accounting tokens
    (net.map fun net =>
      ⟨graph, settings, tokens, .start net accounting settings.monetaryDecimals⟩, notes)

/-- The outcome of a reset: what it answers, the simulation after it, and what is noted. -/
structure ResetOutcome where
  answer : Except NetError (Marking Number)
  simulation : Simulation
  notes : List Log.Entry

/-- Puts a simulation back to its start, maybe with another number of tokens. If the net
cannot be built anew, the number of tokens has changed nevertheless. -/
def reset [EntryOrder] (s : Simulation) (tokens : Option Number) : ResetOutcome :=
  match tokens.filter fun n => !n.same s.initialTokens with
  | none =>
    let engine := s.engine.restart
    ⟨.ok engine.marking, { s with engine }, []⟩
  | some tokens =>
    if tokens.lt 0 then ⟨.error (.negativeTokens tokens), s, []⟩
    else
      let s := { s with initialTokens := tokens }
      let (net, notes) := s.graph.toNet s.engine.accounting tokens
      match net with
      | .error e => ⟨.error e, s, notes⟩
      | .ok net =>
        let engine := Engine.start net s.engine.accounting s.engine.decimals
        ⟨.ok engine.marking, { s with engine }, notes⟩

/-- Fires a transition, and what is noted if it cannot fire. -/
def fire [EntryOrder] (s : Simulation) (t : String) : Simulation × List Log.Entry :=
  let refused : Log.Entry :=
    { level := Log.info
      logger := "nodebook.petri.engine"
      message := "Transition '" ++ t ++ "' is not enabled; marking unchanged"
      context := some (.object [("transition", .string t), ("fired", .bool false)]) }
  ({ s with engine := s.engine.fire t }, if s.engine.isEnabled t then [] else [refused])

/-- The word for what is simulated. -/
def modeName (s : Simulation) : String :=
  if s.engine.accounting then Mode.accounting.name else Mode.tokenNet.name

/-- The totals of the transactions. -/
def transactionBalances [EntryOrder] (s : Simulation) : List (TransactionBalance Number) :=
  s.engine.net.transactionBalances s.settings.balanceEpsilon s.settings.monetaryDecimals

/-- The accounting equation of the marking. -/
def accountingSummary (s : Simulation) : AccountingSummary Number :=
  s.engine.net.accountingSummary s.settings.balanceEpsilon s.settings.monetaryDecimals
    s.engine.marking

/-- The totals of a transaction. -/
def balanceJson (b : TransactionBalance Number) : Json :=
  .object [("id", .string b.transaction), ("debit", .number b.debit),
    ("credit", .number b.credit), ("balanced", .bool b.balanced)]

/-- The fields of a simulation in its marking. -/
def toFields [EntryOrder] (s : Simulation) : List (String × Json) :=
  let books :=
    if s.engine.accounting then
      [("transactions", Json.array (s.transactionBalances.map balanceJson)),
       ("summary", s.accountingSummary.toJson)]
    else []
  [("mode", .string s.modeName), ("marking", s.engine.marking.toJson),
   ("enabled", Json.strings s.engine.enabledTransitions),
   ("deadlock", .bool s.engine.hasDeadlock),
   ("topology", s.engine.net.topology.toJson)] ++ books

end Simulation

end NoteGraph
