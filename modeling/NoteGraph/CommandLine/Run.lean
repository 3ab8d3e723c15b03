import NoteGraph.CommandLine.Command
import NoteGraph.CommandLine.Surroundings
import NoteGraph.Compile
import NoteGraph.Json.Printer
import NoteGraph.Ledger.OfText
import NoteGraph.Ledger.Summary
import NoteGraph.Log.Output
import NoteGraph.Net.RowSort
import NoteGraph.Schema.Fields
import NoteGraph.Settings.Basic

/-!
# Running a command line

A run sees the standard input, which can be read once, and some files. It answers with
a document, with help, or with a failure, and writes a log if the settings ask for one.
The settings are read after the command is known and before its own arguments are.
-/

namespace NoteGraph.CommandLine

/-- What a run has used and written. -/
structure State where
  inputUsed : Bool := false
  log : Option Log.Output := none

/-- What a run answers. -/
inductive Answer where
  | document (text : String)
  | help

/-- A step of a run. -/
abbrev Run (α : Type) := ReaderT Surroundings (ExceptT Failure (StateM State)) α

/-- A text with every line end as a line feed: a carriage return counts as one, together
with a line feed that follows. -/
def unifyLineEnds : List Char → List Char
  | '\r' :: '\n' :: rest => '\n' :: unifyLineEnds rest
  | '\r' :: rest => '\n' :: unifyLineEnds rest
  | c :: rest => c :: unifyLineEnds rest
  | [] => []

/-- A text as it is read. -/
def asRead (text : String) : String := String.ofList (unifyLineEnds text.toList)

/-! ### Reading -/

/-- The place from which a text is read. -/
inductive Source where
  | input
  | file (content : String)

/-- The source that a value names for a parameter. -/
def openSource (parameter name : String) : Run Source := do
  if name = "-" then return .input
  match (← read).entry name with
  | .file content => return .file content
  | entry => throw (.badValue parameter ("'" ++ name ++ "': " ++ entry.reason))

/-- The text of a source; the input gives its text only once. -/
def readSource : Source → Run String
  | .file content => return asRead content
  | .input => do
    if (← get).inputUsed then return ""
    modify fun s => { s with inputUsed := true }
    return asRead (← read).input

/-- Writes notes to the log, if there is one. -/
def note (entries : List Log.Entry) : Run Unit :=
  modify fun s => { s with log := s.log.map fun o => entries.foldl Log.Output.write o }

/-! ### Settings -/

/-- The settings of a file. -/
def loadSettings (name : String) : Run Settings := do
  let content := match (← read).entry name with
    | .file content => content
    | _ => ""
  match Settings.ofText (asRead content) with
  | .ok settings => return settings
  | .error e => throw (.refused ("Invalid settings file " ++ name ++ ": " ++ e.message))

/-- Sets up the log, if it has a file or is written as objects. -/
def setUpLog (level : Log.Level) (settings : LogSettings) : Run Unit := do
  let fileName := settings.file.filter fun name => !name.isEmpty
  if fileName.isSome || settings.asJson then
    modify fun s => { s with log := some (Log.Output.setUp level settings.asJson fileName) }

/-! ### Commands -/

/-- A call of a command. -/
inductive Call where
  | ops (source : Source)
  | graph (source : Source)
  | validate (source : Source) (schemas : List Source)
  | simulate (source : Source) (fire : List String) (tokens : Option Number)
      (accounting : Option Bool) (explore : Bool)
  | ledger (source : Source) (period : Option Ledger.Period)

/-- The number of tokens that a value gives. -/
def readTokens (value : String) : Except Failure Number :=
  match Number.readNumeral? value.toList with
  | some x => .ok (.float x)
  | none =>
    .error (.badValue "--initial-tokens" (Text.quoted value ++ " is not a valid float."))

/-- What the options of a call come to. -/
structure Options where
  schemas : List Source := []
  tokens : Option Number := none
  period : Option Ledger.Period := none

/-- Checks one option that is given. -/
def checkOption (a : Arguments) (o : Options) (key : String) : Run Options := do
  match key with
  | "schema" => return { o with schemas := ← (a.valuesOf key).mapM (openSource "--schema") }
  | "initial-tokens" =>
    return { o with tokens := ← (a.valueOf? key).mapM fun v => liftExcept (readTokens v) }
  | "period" =>
    return { o with period := ← (a.valueOf? key).mapM fun v => liftExcept (choosePeriod v) }
  | _ => return o
where
  /-- An outcome as a step. -/
  liftExcept {α : Type} : Except Failure α → Run α
    | .ok a => return a
    | .error e => throw e

/-- Whether accounting is asked for or refused; the last word counts. -/
def accountingChoice (a : Arguments) : Option Bool :=
  (a.options.filterMap fun o =>
    if o.key = "accounting" then some true
    else if o.key = "no-accounting" then some false
    else none).getLast?

/-- The call that the arguments of a command make, or nothing if they ask for help. -/
def readCall (name : CommandName) (args : List String) : Run (Option Call) := do
  match readArguments name.options false args with
  | .error e => throw (.arguments e)
  | .ok a =>
    if a.has "help" then return none
    let options ← a.keys.foldlM (checkOption a) {}
    let source ← openSource "[SOURCE]" (a.others.head?.getD "-")
    if 1 < a.others.length then throw (.tooManyArguments (a.others.drop 1))
    match name with
    | .ops => return some (.ops source)
    | .graph => return some (.graph source)
    | .validate => return some (.validate source options.schemas)
    | .simulate =>
      return some (.simulate source (a.valuesOf "fire") options.tokens (accountingChoice a)
        (a.has "explore"))
    | .ledger => return some (.ledger source options.period)

/-- The note on a validation. -/
def validationNote (warnings errors : Nat) : Log.Entry :=
  { level := Log.info
    logger := "nodebook.cli"
    message := "validate: " ++ toString warnings ++ " warning(s), " ++ toString errors ++
      " schema error(s)" }

/-- Fires transitions in turn, and what each step came to. -/
def fireAll (s : Simulation) : List String → Run (Simulation × List Json)
  | [] => return (s, [])
  | t :: rest => do
    let known := s.engine.net.transitionNames
    if !known.contains t then
      let names := if known.isEmpty then "none" else ", ".intercalate known
      throw (.refused ("Unknown transition '" ++ t ++ "'. Transitions: " ++ names))
    let (after, notes) := s.fire t
    note notes
    let step := Json.object [("transition", .string t), ("fired", .bool (s.engine.isEnabled t)),
      ("marking", after.engine.marking.toJson)]
    let (last, steps) ← fireAll after rest
    return (last, step :: steps)

/-- The document that a simulation comes to. -/
def simulate (settings : SimulationSettings) (text : String) (fire : List String)
    (tokens : Option Number) (accounting : Option Bool) (explore : Bool) : Run Json := do
  let compiled := compile text Schema.Catalog.default
  note [compiled.note]
  match compiled.graph.errors, compiled.graph.nodes with
  | e :: _, [] => throw (.refused e.message)
  | _, _ => pure ()
  let (started, notes) := Simulation.start compiled.graph tokens accounting settings
  note notes
  match started with
  | .error e => throw (.refused e.message)
  | .ok s =>
    let (s, steps) ← fireAll s fire
    let fields := s.toFields ++ [("steps", .array steps)]
    if !explore then return .object fields
    match s.engine.explore (.int settings.maxReachableStates) with
    | .error .accountingNet =>
      throw (.refused "--explore requires a token net, not an accounting net.")
    | .error e => throw (.refused e.message)
    | .ok report => return .object (fields ++ [("reachability", report.toJson)])

/-- The document that a ledger comes to. -/
def ledgerReport (settings : LedgerSettings) (text : String) (period : Option Ledger.Period) :
    Run Json := do
  let ledger := Ledger.ofText text
  let period := period.getD settings.period
  match Ledger.summarize period ledger.transactions with
  | .error e => throw (.refused e.message)
  | .ok totals =>
    return .object (ledger.toFields ++ (ledger.compute settings.uncategorized).toFields ++
      [("period", .string period.name),
       ("periods", .array (totals.map fun t => .object t.toFields))])

/-- The document that a call comes to. -/
def Call.run (settings : Settings) : Call → Run Json
  | ops source => return .array ((operationsOf (← readSource source)).map Operation.toJson)
  | graph source => do
    let compiled := compile (← readSource source) Schema.Catalog.default
    note [compiled.note]
    return compiled.toJson
  | validate source schemas => do
    let blocks ← schemas.mapM fun schema => return Schema.readBlock (← readSource schema)
    let merged := Schema.mergeBlocks blocks
    let catalog := Schema.Catalog.default.mergedWith merged.catalog
    let warnings := Schema.validate catalog (operationsOf (← readSource source))
    note [validationNote warnings.length merged.errors.length]
    return .object [("warnings", .array (warnings.map Schema.Warning.toJson)),
      ("schema_errors", .array (merged.errors.map Schema.BlockError.toJson))]
  | simulate source fire tokens accounting explore => do
    CommandLine.simulate settings.simulation.settings (← readSource source) fire tokens
      accounting explore
  | ledger source period => do
    ledgerReport settings.ledger.settings (← readSource source) period

/-! ### The program -/

/-- Whether an argument that names no command starts like an option. -/
def startsLikeOption (arg : String) : Bool :=
  arg.toList.head?.any fun c => !c.isAlphanum

/-- Checks one option of the program. -/
def checkProgramOption (a : Arguments) (level : Option Log.Level) (key : String) :
    Run (Option Log.Level) := do
  match key, a.valueOf? key with
  | "config", some name =>
    let complaint (fault : String) : Failure :=
      .badValue "--config" ("File " ++ Text.quoted name ++ " " ++ fault)
    match (← read).entry name with
    | .file _ => return level
    | .directory => throw (complaint "is a directory.")
    | _ => throw (complaint "does not exist.")
  | "log-level", some value =>
    match chooseLevel value with
    | .ok level => return some level
    | .error e => throw e
  | _, _ => return level

/-- The options of the program in some arguments and the level that they choose, or
nothing if they ask for help. -/
def readProgramOptions (args : List String) : Run (Option (Arguments × Option Log.Level)) := do
  match readArguments programOptions true args with
  | .error e => throw (.arguments e)
  | .ok a =>
    if a.has "help" then return none
    return some (a, ← a.keys.foldlM (checkProgramOption a) none)

/-- Answers a call that names no command. If it might be meant as an option, it is read
as one first. -/
def refuseCommand (name : String) (rest : List String) : Run Answer := do
  if startsLikeOption name then
    if (← readProgramOptions (name :: rest)).isNone then return .help
  throw (.noSuchCommand name (Text.similarWords (CommandName.all.map (·.text)) name))

/-- Runs a command under the options of the program. -/
def runCommand (a : Arguments) (level : Option Log.Level) (command : CommandName)
    (args : List String) : Run Answer := do
  let settings ← match a.valueOf? "config" with
    | some name => loadSettings name
    | none => pure {}
  setUpLog (level.getD settings.log.settings.level) settings.log.settings
  match ← readCall command args with
  | none => return .help
  | some call => return .document (Json.blockText 0 (← call.run settings) ++ "\n")

/-- Runs the program with some arguments. -/
def run (args : List String) : Run Answer := do
  if args.isEmpty then throw .noArguments
  match ← readProgramOptions args with
  | none => return .help
  | some (a, level) =>
    match a.others with
    | [] => throw .missingCommand
    | name :: rest =>
      match CommandName.ofText? name with
      | none => refuseCommand name rest
      | some command => runCommand a level command rest

/-! ### Outcomes -/

/-- What a run comes to. -/
structure Outcome where
  result : Except Failure Answer
  /-- Whether the input was read. -/
  inputUsed : Bool
  /-- The log, if one was set up. -/
  log : Option Log.Output

/-- Runs the program in some surroundings. -/
def execute (surroundings : Surroundings) (args : List String) : Outcome :=
  let (result, state) := ((run args).run surroundings).run.run {}
  ⟨result, state.inputUsed, state.log⟩

/-- The exit code of a run. -/
def Outcome.exitCode (o : Outcome) : Nat :=
  match o.result with
  | .ok _ => 0
  | .error e => e.exitCode

end NoteGraph.CommandLine
