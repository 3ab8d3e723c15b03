import NoteGraph.CommandLine.Run

/-!
# The program

The outer layer of the command line: it reads the files that the arguments name, asks
`CommandLine.execute` for the outcome, and writes it. The input is read only if the
outcome depends on it. Lines of the log are written without their times.
-/

namespace NoteGraph.CommandLine

/-- What the program says of itself. -/
def helpText : String := "\n".intercalate
  ["Usage: notegraph [--config FILE] [--log-level LEVEL] COMMAND [SOURCE] [OPTIONS]",
   "",
   "Each command reads SOURCE (- for the input) and prints a JSON document.",
   "",
   "Commands:",
   "  ops       The operations of a notebook.",
   "  graph     The graph of a notebook, its mode and its warnings.",
   "  validate  The warnings on a notebook [--schema FILE ...].",
   "  simulate  The token net of a notebook [--fire TRANSITION ...]",
   "            [--initial-tokens NUMBER] [--accounting | --no-accounting] [--explore].",
   "  ledger    The balances of a ledger [--period daily|weekly|monthly|categories]."]

/-- What a path leads to. -/
def readEntry (path : String) : IO Entry := do
  let place := (← IO.currentDir) / path
  if path.isEmpty then return .missing
  if ← place.isDir then return .directory
  try return .file (← IO.FS.readFile place) catch _ => return .missing

/-- What the arguments lead to as paths, an argument by itself or after an equals sign. -/
def readEntries (args : List String) : IO (List (String × Entry)) := do
  let paths := args ++ args.filterMap fun arg => (cutEquals arg).2
  paths.mapM fun path => return (path, ← readEntry path)

/-- The written form of a line of the log. -/
def lineText : Log.Line → String
  | .text line => line
  | .object fields => Json.lineText .allButAscii (.object fields)

/-- Writes the lines of a log to the console and to its file. -/
def writeLog (log : Log.Output) : IO Unit := do
  log.console.forM fun line => IO.eprintln (lineText line)
  if let some name := log.fileName then
    let file ← IO.FS.Handle.mk name .append
    log.file.forM fun line => file.putStrLn (lineText line)

/-- Prints the answer, or what went wrong. -/
def printResult : Except Failure Answer → IO Unit
  | .ok (.document text) => IO.print text
  | .ok .help => IO.println helpText
  | .error .noArguments => IO.eprintln helpText
  | .error e => IO.eprintln ("Error: " ++ e.message)

/-- Runs a command line and answers with its exit code. -/
def perform (args : List String) : IO UInt32 := do
  let entries ← readEntries args
  let surroundings : Surroundings :=
    { input := "", entry := fun path => (entries.lookup path).getD .missing }
  let blind := execute surroundings args
  let outcome ←
    if blind.inputUsed then do
      let input ← (← IO.getStdin).readToEnd
      pure (execute { surroundings with input } args)
    else pure blind
  outcome.log.forM writeLog
  printResult outcome.result
  return outcome.exitCode.toUInt32

end NoteGraph.CommandLine

/-- The entry of the program. -/
def main (args : List String) : IO UInt32 := NoteGraph.CommandLine.perform args
