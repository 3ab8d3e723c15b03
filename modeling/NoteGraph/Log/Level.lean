/-!
# Log levels

A level is a weight. Some weights have names, which are looked up in letters of any
case; a name that is not known stands for `info`.
-/

namespace NoteGraph.Log

/-- A level, by its weight. -/
abbrev Level := Int

def debug : Level := 10
def info : Level := 20
def warning : Level := 30
def error : Level := 40
def critical : Level := 50

/-- A level that leaves the choice to someone else. -/
def unset : Level := 0

/-- The levels that are commonly chosen, by their names. -/
def commonLevels : List (String × Level) :=
  [("DEBUG", debug), ("INFO", info), ("WARNING", warning), ("ERROR", error),
   ("CRITICAL", critical)]

/-- All names of levels. -/
def namedLevels : List (String × Level) :=
  commonLevels ++ [("NOTSET", unset), ("WARN", warning), ("FATAL", critical)]

/-- The name of a level. -/
def levelName (level : Level) : String :=
  match namedLevels.find? (·.2 == level) with
  | some (name, _) => name
  | none => "Level " ++ toString level

/-- The ASCII capitals of a letter or a ligature that has them; other characters stay. -/
def capitals (c : Char) : List Char :=
  if c = 'ı' then ['I']
  else if c = 'ſ' then ['S']
  else if c = 'ﬅ' || c = 'ﬆ' then ['S', 'T']
  else [c.toUpper]

/-- A name in capitals. -/
def inCapitals (name : String) : String := String.ofList (name.toList.flatMap capitals)

/-- The common level with a name. -/
def commonLevel? (name : String) : Option Level := commonLevels.lookup (inCapitals name)

/-! ### Names that are not levels -/

/-- Why a name stands for no level: it names the layout of lines, or all layouts. -/
inductive LevelError where
  | layout
  | layouts
  deriving DecidableEq

/-- The layout of lines with the names of fields in each of three styles. -/
def layoutText (before after : String) : String :=
  ":".intercalate (["levelname", "name", "message"].map fun field => before ++ field ++ after)

/-- What is reported of a name that stands for no level. -/
def LevelError.message : LevelError → String
  | layout => "Unknown level: '" ++ layoutText "%(" ")s" ++ "'"
  | layouts =>
    let style (mark kind before after : String) : String :=
      "'" ++ mark ++ "': (<class 'logging." ++ kind ++ "'>, '" ++ layoutText before after ++ "')"
    "Level not an integer or a valid string: \x7b" ++ ", ".intercalate
      [style "%" "PercentStyle" "%(" ")s", style "\x7b" "StrFormatStyle" "\x7b" "\x7d",
       style "$" "StringTemplateStyle" "$\x7b" "\x7d"] ++ "\x7d"

/-- The level with a name, `info` if there is none. -/
def levelNamed (name : String) : Except LevelError Level :=
  let name := inCapitals name
  if name = "BASIC_FORMAT" then .error .layout
  else if name = "_STYLES" then .error .layouts
  else .ok ((namedLevels.lookup name).getD info)

end NoteGraph.Log
