import NoteGraph.Engine.Simulation
import NoteGraph.Json.Reader
import NoteGraph.Ledger.Balance
import NoteGraph.Settings.Field

/-!
# Settings

Settings come in three sections: for simulations, for ledgers and for the log. Every
field may be left out and then has its default. Fields that no section knows are kept as
they are. All faults are found in one reading, in the order of sections and fields.
-/

namespace NoteGraph

/-- The settings of ledgers. -/
structure LedgerSettings where
  period : Ledger.Period := .monthly
  uncategorized : String := Ledger.uncategorized
  deriving DecidableEq

/-- The settings of the log. -/
structure LogSettings where
  level : Log.Level := Log.warning
  /-- Whether records are written as objects. -/
  asJson : Bool := false
  file : Option String := none
  deriving DecidableEq

/-- A section's settings, with the fields that it does not know. -/
structure Section (α : Type) where
  settings : α
  others : List (String × Json) := []

/-- All settings. -/
structure Settings where
  simulation : Section SimulationSettings := { settings := {} }
  ledger : Section LedgerSettings := { settings := {} }
  log : Section LogSettings := { settings := {} }
  others : List (String × Json) := []

namespace Settings

/-! ### Reading with all faults -/

/-- A fault and where it is. -/
structure FieldError where
  path : List String
  fault : Fault
  deriving DecidableEq

/-- The fields of a fault. -/
def FieldError.toJson (e : FieldError) : Json :=
  .object [("type", .string e.fault.kind), ("loc", Json.strings e.path),
    ("msg", .string e.fault.message)]

/-- What was read, and the faults found on the way. -/
structure Checked (α : Type) where
  value : α
  errors : List FieldError := []

/-- What was read, if it has no fault. -/
def Checked.toExcept {α : Type} (c : Checked α) : Except (List FieldError) α :=
  if c.errors.isEmpty then .ok c.value else .error c.errors

/-- A field, or its default if it is left out or has a fault. -/
def readField {α : Type} (fields : List (String × Json)) (name : String) (fallback : α)
    (read : Json → Except Fault α) : Checked α :=
  match Json.field? fields name with
  | none => { value := fallback }
  | some j =>
    match read j with
    | .ok value => { value }
    | .error fault => { value := fallback, errors := [⟨[name], fault⟩] }

/-- The fields with other names. -/
def otherFields (known : List String) (fields : List (String × Json)) :
    List (String × Json) :=
  fields.filter fun field => !known.contains field.1

/-- A section, or its defaults if it is left out or has a fault. -/
def readSection {α : Type} (fields : List (String × Json)) (name model : String)
    (known : List String) (fallback : α) (read : List (String × Json) → Checked α) :
    Checked (Section α) :=
  match Json.field? fields name with
  | none => { value := { settings := fallback } }
  | some (.object inner) =>
    let checked := read inner
    { value := { settings := checked.value, others := otherFields known inner }
      errors := checked.errors.map fun e => { e with path := name :: e.path } }
  | some _ =>
    { value := { settings := fallback }, errors := [⟨[name], .notSection model⟩] }

/-! ### The sections -/

/-- The fields of the settings of simulations. -/
def simulationFields : List String :=
  ["initial_tokens", "balance_epsilon", "monetary_decimals", "max_reachable_states"]

/-- Reads the settings of simulations. -/
def readSimulation (fields : List (String × Json)) : Checked SimulationSettings :=
  let defaults : SimulationSettings := {}
  let tokens := readField fields "initial_tokens" defaults.initialTokens readCount
  let epsilon := readField fields "balance_epsilon" defaults.balanceEpsilon readPositive
  let decimals := readField fields "monetary_decimals" defaults.monetaryDecimals readWholeCount
  let states :=
    readField fields "max_reachable_states" defaults.maxReachableStates readWholePositive
  { value := ⟨tokens.value, epsilon.value, decimals.value, states.value⟩
    errors := tokens.errors ++ epsilon.errors ++ decimals.errors ++ states.errors }

/-- The fields of the settings of ledgers. -/
def ledgerFields : List String := ["default_period", "uncategorized_label"]

/-- Reads the settings of ledgers. -/
def readLedger (fields : List (String × Json)) : Checked LedgerSettings :=
  let defaults : LedgerSettings := {}
  let period := readField fields "default_period" defaults.period readPeriod
  let label := readField fields "uncategorized_label" defaults.uncategorized readText
  { value := ⟨period.value, label.value⟩, errors := period.errors ++ label.errors }

/-- The fields of the settings of the log. -/
def logFields : List String := ["level", "json_output", "log_file"]

/-- Reads the settings of the log. -/
def readLog (fields : List (String × Json)) : Checked LogSettings :=
  let defaults : LogSettings := {}
  let level := readField fields "level" defaults.level readLevel
  let asJson := readField fields "json_output" defaults.asJson readTruthValue
  let file := readField fields "log_file" defaults.file readOptionalText
  { value := ⟨level.value, asJson.value, file.value⟩
    errors := level.errors ++ asJson.errors ++ file.errors }

/-! ### The settings -/

/-- Reads all settings from a value. -/
def ofJson : Json → Except (List FieldError) Settings
  | .object fields =>
    let simulation :=
      readSection fields "petri" "PetriParams" simulationFields {} readSimulation
    let ledger := readSection fields "ledger" "LedgerParams" ledgerFields {} readLedger
    let log := readSection fields "logging" "LoggingParams" logFields {} readLog
    Checked.toExcept
      { value := ⟨simulation.value, ledger.value, log.value,
          otherFields ["petri", "ledger", "logging"] fields⟩
        errors := simulation.errors ++ ledger.errors ++ log.errors }
  | _ => .error [⟨[], .notSection "NodebookConfig"⟩]

/-- Why a text holds no settings. -/
inductive TextError where
  | malformed (error : Json.ReadError)
  | invalid (errors : List FieldError)

/-- What is reported of a text that holds no settings. -/
def TextError.message : TextError → String
  | malformed e => e.message
  | invalid errors =>
    toString errors.length ++ " validation error" ++ (if errors.length = 1 then "" else "s") ++
      " for NodebookConfig"

/-- Reads all settings from a text. -/
def ofText (text : String) : Except TextError Settings :=
  match Json.parse text with
  | .error e => .error (.malformed e)
  | .ok j =>
    match ofJson j with
    | .error errors => .error (.invalid errors)
    | .ok settings => .ok settings

/-! ### Fields -/

/-- The settings as a value that reads as them. -/
def toJson (s : Settings) : Json :=
  let simulation := s.simulation.settings
  let ledger := s.ledger.settings
  let log := s.log.settings
  .object ([
    ("petri", .object ([
      ("initial_tokens", .number simulation.initialTokens),
      ("balance_epsilon", .number simulation.balanceEpsilon),
      ("monetary_decimals", Json.int simulation.monetaryDecimals),
      ("max_reachable_states", Json.int simulation.maxReachableStates)] ++
        s.simulation.others)),
    ("ledger", .object ([
      ("default_period", .string ledger.period.name),
      ("uncategorized_label", .string ledger.uncategorized)] ++ s.ledger.others)),
    ("logging", .object ([
      ("level", .string (Log.levelName log.level)),
      ("json_output", .bool log.asJson),
      ("log_file", Json.optionalString log.file)] ++ s.log.others))] ++ s.others)

end Settings

end NoteGraph
