import NoteGraph.Text.Similarity

/-!
# Arguments of a command line

Arguments are options, the values of options, and the rest. An option starts with a
dash; its value is the next argument, or what follows an equals sign. Letters after a
single dash are options of one letter each. After two dashes alone no argument is an
option.
-/

namespace NoteGraph.CommandLine

/-- An option as a command declares it. -/
structure OptionDecl where
  /-- What the command calls the option. -/
  key : String
  /-- How it is written. -/
  spellings : List String
  takesValue : Bool
  deriving DecidableEq

/-- An option as it is given. -/
structure Given where
  key : String
  spelling : String
  value : Option String
  deriving DecidableEq

/-- Why arguments cannot be read. -/
inductive ArgumentError where
  /-- There is no such option, but maybe some that are spelled much like it. -/
  | noSuchOption (spelling : String) (similar : List String)
  | valueMissing (spelling : String)
  | valueNotTaken (spelling : String)
  deriving DecidableEq

/-- What is reported of arguments that cannot be read. -/
def ArgumentError.message : ArgumentError → String
  | noSuchOption s similar =>
    "No such option " ++ Text.quoted s ++ "." ++ Text.suggestion similar
  | valueMissing s => "Option " ++ Text.quoted s ++ " requires an argument."
  | valueNotTaken s => "Option " ++ Text.quoted s ++ " does not take a value."

/-- The options that are given, in their order, and the other arguments. -/
structure Arguments where
  options : List Given := []
  others : List String := []
  deriving DecidableEq

/-- Whether an argument is written as an option. -/
def isOption (arg : String) : Bool := arg.startsWith "-" && arg != "-"

/-- The spellings of options that are not of one letter. -/
def longSpellings (decls : List OptionDecl) : List String :=
  decls.flatMap fun d => d.spellings.filter fun s => 2 < s.length

/-- The option with a long spelling. -/
def longOption? (decls : List OptionDecl) (spelling : String) : Option OptionDecl :=
  decls.find? fun d => 2 < spelling.length && d.spellings.contains spelling

/-- The option of one letter. -/
def letterOption? (decls : List OptionDecl) (letter : Char) : Option OptionDecl :=
  decls.find? fun d => d.spellings.contains (String.ofList ['-', letter])

/-- An argument cut at its first equals sign. -/
def cutEquals (arg : String) : String × Option String :=
  let cs := arg.toList
  match cs.dropWhile (· != '=') with
  | [] => (arg, none)
  | _ :: value => (String.ofList (cs.takeWhile (· != '=')), some (String.ofList value))

/-- The options of the letters after a dash; none of them takes a value. -/
def readLetters (decls : List OptionDecl) : List Char → Except ArgumentError (List Given)
  | [] => .ok []
  | c :: rest => do
    let spelling := String.ofList ['-', c]
    match letterOption? decls c with
    | none => throw (.noSuchOption spelling [])
    | some d =>
      if d.takesValue then throw (.valueMissing spelling)
      return ⟨d.key, spelling, none⟩ :: (← readLetters decls rest)

/-- The options that one argument gives, and how many of the `next` arguments they take
as their value. -/
def readOption (decls : List OptionDecl) (arg : String) (next : List String) :
    Except ArgumentError (List Given × Nat) := do
  let (spelling, value) := cutEquals arg
  match longOption? decls spelling with
  | some d =>
    match d.takesValue, value, next with
    | true, some value, _ => return ([⟨d.key, spelling, some value⟩], 0)
    | true, none, value :: _ => return ([⟨d.key, spelling, some value⟩], 1)
    | true, none, [] => throw (.valueMissing spelling)
    | false, some _, _ => throw (.valueNotTaken spelling)
    | false, none, _ => return ([⟨d.key, spelling, none⟩], 0)
  | none =>
    if arg.startsWith "--" then
      throw (.noSuchOption spelling (Text.similarWords (longSpellings decls) spelling))
    return (← readLetters decls (arg.toList.drop 1), 0)

/-- Reads arguments. If options must come `first`, the first other argument ends them. -/
def readArguments (decls : List OptionDecl) (first : Bool) (args : List String) :
    Except ArgumentError Arguments :=
  match args with
  | [] => .ok {}
  | arg :: rest =>
    if arg = "--" then .ok { others := rest }
    else if isOption arg then do
      let (given, taken) ← readOption decls arg rest
      let more ← readArguments decls first (rest.drop taken)
      return { more with options := given ++ more.options }
    else if first then .ok { others := arg :: rest }
    else do
      let more ← readArguments decls first rest
      return { more with others := arg :: more.others }
termination_by args.length
decreasing_by all_goals (simp only [List.length_cons, List.length_drop]; omega)

end NoteGraph.CommandLine
