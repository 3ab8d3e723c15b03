import NoteGraph.CommandLine.Arguments
import NoteGraph.Ledger.Period
import NoteGraph.Log.Level

/-!
# Commands

The options of the program and of its five commands, and the commands as they are
called. A call is checked in the order in which its options are given, then its source.
-/

namespace NoteGraph.CommandLine

/-- Why a call fails. -/
inductive Failure where
  | arguments (error : ArgumentError)
  | badValue (parameter reason : String)
  /-- There is no such command, but maybe some that are named much like it. -/
  | noSuchCommand (name : String) (similar : List String)
  | missingCommand
  | tooManyArguments (arguments : List String)
  /-- Nothing was asked for. -/
  | noArguments
  /-- The command itself cannot do what it is called for. -/
  | refused (reason : String)
  deriving DecidableEq

/-- What is reported of a call that fails. -/
def Failure.message : Failure → String
  | arguments e => e.message
  | badValue parameter reason => "Invalid value for '" ++ parameter ++ "': " ++ reason
  | noSuchCommand name similar =>
    "No such command " ++ Text.quoted name ++ "." ++ Text.suggestion similar
  | missingCommand => "Missing command."
  | tooManyArguments args =>
    "Got unexpected extra argument" ++ (if args.length = 1 then "" else "s") ++ " (" ++
      " ".intercalate args ++ ")"
  | noArguments => ""
  | refused reason => reason

/-- The exit code of a call that fails. -/
def Failure.exitCode : Failure → Nat
  | refused _ => 1
  | _ => 2

/-! ### Options -/

/-- The option that asks for help. -/
def helpOption : OptionDecl := ⟨"help", ["-h", "--help"], false⟩

/-- The options before the name of a command. -/
def programOptions : List OptionDecl :=
  [⟨"config", ["--config"], true⟩, ⟨"log-level", ["--log-level"], true⟩, helpOption]

/-- The commands. -/
inductive CommandName where
  | ops
  | graph
  | validate
  | simulate
  | ledger
  deriving DecidableEq

/-- The name of a command. -/
def CommandName.text : CommandName → String
  | ops => "ops"
  | graph => "graph"
  | validate => "validate"
  | simulate => "simulate"
  | ledger => "ledger"

/-- All commands. -/
def CommandName.all : List CommandName := [ops, graph, validate, simulate, ledger]

/-- The command with a name. -/
def CommandName.ofText? (name : String) : Option CommandName := all.find? (·.text == name)

/-- The options of a command. -/
def CommandName.options : CommandName → List OptionDecl
  | ops | graph => [helpOption]
  | validate => [⟨"schema", ["--schema"], true⟩, helpOption]
  | simulate =>
    [⟨"fire", ["--fire"], true⟩, ⟨"initial-tokens", ["--initial-tokens"], true⟩,
     ⟨"accounting", ["--accounting"], false⟩, ⟨"no-accounting", ["--no-accounting"], false⟩,
     ⟨"explore", ["--explore"], false⟩, helpOption]
  | ledger => [⟨"period", ["--period"], true⟩, helpOption]

namespace Arguments

/-- Whether an option is given. -/
def has (a : Arguments) (key : String) : Bool := a.options.any (·.key == key)

/-- The values of an option, in their order. -/
def valuesOf (a : Arguments) (key : String) : List String :=
  a.options.filterMap fun o => if o.key == key then o.value else none

/-- The last value of an option. -/
def valueOf? (a : Arguments) (key : String) : Option String := (a.valuesOf key).getLast?

/-- The keys of the options that are given, each at its first place. -/
def keys (a : Arguments) : List String := (a.options.map (·.key)).eraseDups

end Arguments

/-! ### Choices -/

/-- A complaint about a value that is none of some choices. -/
def notAmong (value : String) (choices : List String) : String :=
  Text.quoted value ++ " is not one of " ++ ", ".intercalate (choices.map Text.quoted) ++ "."

/-- The levels that can be chosen, by their names. -/
def levelChoices : List (String × Log.Level) :=
  [("debug", Log.debug), ("info", Log.info), ("warning", Log.warning), ("error", Log.error)]

/-- The level that a value chooses, in letters of any case. -/
def chooseLevel (value : String) : Except Failure Log.Level :=
  match levelChoices.lookup (value.map Char.toLower) with
  | some level => .ok level
  | none => .error (.badValue "--log-level" (notAmong value (levelChoices.map (·.1))))

/-- The period that a value chooses. -/
def choosePeriod (value : String) : Except Failure Ledger.Period :=
  match Ledger.Period.ofName? value with
  | some period => .ok period
  | none =>
    .error (.badValue "--period" (notAmong value (Ledger.Period.all.map (·.name))))

end NoteGraph.CommandLine
