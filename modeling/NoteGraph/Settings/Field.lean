import NoteGraph.Json.Basic
import NoteGraph.Ledger.Period
import NoteGraph.Log.Level
import NoteGraph.Number.Numeral

/-!
# Fields of settings

Settings are lenient about how a value is written: numbers and whole numbers may be
given as text or as a truth value, truth values as words or as 0 and 1. A value that
cannot be read, or lies outside its range, has a fault.
-/

namespace NoteGraph.Settings

open Number (isPlainDigit digitsValue cutSign isPadding Binary64)

/-! ### Faults -/

/-- What is wrong with a value. -/
inductive Fault where
  | belowZero
  | notAboveZero
  | notNumber
  | unreadableNumber
  | notWhole
  | unreadableWhole
  | wholeTooLarge
  | fractional
  | notFinite
  | notTruthValue
  | unreadableTruthValue
  | notText
  | unknownPeriod
  | unknownLevel
  /-- Not an object that could hold the fields of a section. -/
  | notSection (name : String)
  deriving DecidableEq

/-- The name of a kind of fault. -/
def Fault.kind : Fault → String
  | belowZero => "greater_than_equal"
  | notAboveZero => "greater_than"
  | notNumber => "float_type"
  | unreadableNumber => "float_parsing"
  | notWhole => "int_type"
  | unreadableWhole => "int_parsing"
  | wholeTooLarge => "int_parsing_size"
  | fractional => "int_from_float"
  | notFinite => "finite_number"
  | notTruthValue => "bool_type"
  | unreadableTruthValue => "bool_parsing"
  | notText => "string_type"
  | unknownPeriod | unknownLevel => "value_error"
  | notSection _ => "model_type"

/-- What is reported of a fault. -/
def Fault.message : Fault → String
  | belowZero => "Input should be greater than or equal to 0"
  | notAboveZero => "Input should be greater than 0"
  | notNumber => "Input should be a valid number"
  | unreadableNumber => "Input should be a valid number, unable to parse string as a number"
  | notWhole => "Input should be a valid integer"
  | unreadableWhole => "Input should be a valid integer, unable to parse string as an integer"
  | wholeTooLarge => "Unable to parse input string as an integer, exceeded maximum size"
  | fractional => "Input should be a valid integer, got a number with a fractional part"
  | notFinite => "Input should be a finite number"
  | notTruthValue => "Input should be a valid boolean"
  | unreadableTruthValue => "Input should be a valid boolean, unable to interpret input"
  | notText => "Input should be a valid string"
  | unknownPeriod =>
    "Value error, default_period must be one of daily, weekly, monthly, categories"
  | unknownLevel =>
    "Value error, level must be one of DEBUG, INFO, WARNING, ERROR, CRITICAL"
  | notSection name => "Input should be a valid dictionary or instance of " ++ name

/-! ### Numbers -/

/-- A text without the blanks that may stand around a number. -/
def trimPadding (cs : List Char) : List Char :=
  Text.dropWhileRight isPadding (cs.dropWhile isPadding)

/-- A text without its underscores, if none stands at an end or beside another. -/
def dropUnderscores (cs : List Char) : List Char :=
  let stray := cs.head? = some '_' || cs.getLast? = some '_' ||
    (cs.zip cs.tail).any fun (c, d) => c = '_' && d = '_'
  if stray then cs else cs.filter (· != '_')

/-- The number that a text without blanks and underscores writes in ASCII digits. -/
def bareNumber? (cs : List Char) : Option Binary64 :=
  let (negative, rest) := cutSign cs
  match Number.readFraction? negative rest with
  | some decimal => some decimal.toBinary64
  | none => Number.readWord? negative rest

/-- The number that a text writes. There may be blanks around it or underscores in it,
but not both. -/
def numberOfText? (text : String) : Option Binary64 :=
  let cs := text.toList
  (bareNumber? (trimPadding cs)).or (bareNumber? (dropUnderscores cs))

/-- A number, as a floating-point number. -/
def readNumber : Json → Except Fault Number
  | .bool b => .ok (Number.toFloat (.int (if b then 1 else 0)))
  | .number n => if n.isTooLarge then .error .notNumber else .ok n.toFloat
  | .string s =>
    match numberOfText? s with
    | some x => .ok (.float x)
    | none => .error .unreadableNumber
  | _ => .error .notNumber

/-! ### Whole numbers -/

/-- The digits that a whole number may have, its minus sign counted in. -/
def maxDigits : Nat := 4300

/-- The whole number that ASCII digits write, without leading zeros and with at most a
minus sign before them. Too long a run of digits is a fault whatever follows it. -/
def bareWhole (cs : List Char) : Except Fault Int :=
  let (negative, digits) := match cs with
    | '-' :: rest => (true, rest)
    | _ => (false, cs)
  let run := digits.takeWhile isPlainDigit
  if digits.head? = some '0' then
    if digits = ['0'] then .ok 0 else .error .unreadableWhole
  else if maxDigits < run.length + (if negative then 1 else 0) then .error .wholeTooLarge
  else if run.isEmpty || run.length ≠ digits.length then .error .unreadableWhole
  else .ok (if negative then -(digitsValue run : Int) else digitsValue run)

/-- A text without a plus sign before it, unless a minus sign follows. -/
def dropPlus? : List Char → Option (List Char)
  | '+' :: '-' :: _ => none
  | '+' :: rest => some rest
  | cs => some cs

/-- A text without the point and the zeros that end it, if there are zeros. -/
def dropPlaces (cs : List Char) : List Char :=
  let places := (cs.dropWhile (· != '.')).drop 1
  if !places.isEmpty && places.all (· = '0') then cs.takeWhile (· != '.') else cs

/-- A text without the zeros before its first other digit or minus sign; among the zeros
there may be underscores. The last character of zeros and underscores alone stays. -/
def dropZeros? : List Char → Option (List Char)
  | '0' :: rest =>
    match rest.dropWhile fun c => c = '0' || c = '_' with
    | [] => some [('0' :: rest).getLastD '0']
    | c :: more => if isPlainDigit c || c = '-' then some (c :: more) else none
  | c :: rest => if isPlainDigit c || c = '-' then some (c :: rest) else none
  | [] => none

/-- The whole number that a text writes: as it stands, or without the blanks around it,
a plus sign, leading zeros, zeros after a point and underscores. -/
def wholeOfText (text : String) : Except Fault Int :=
  let cs := text.toList
  match bareWhole cs with
  | .ok n => .ok n
  | .error .wholeTooLarge => .error .wholeTooLarge
  | .error _ =>
    match (dropPlus? (trimPadding cs)).bind fun cs => dropZeros? (dropPlaces cs) with
    | some cs => bareWhole (dropUnderscores cs)
    | none => .error .unreadableWhole

/-- The number above all whole numbers that a floating-point number can be read as, and
below them with a minus sign. -/
def wholeLimit : Nat := 0x8000000000000000

/-- A floating-point number as a whole number. -/
def wholeOfFloat (x : Binary64) : Except Fault Int :=
  match x.toInt? with
  | some n => if n.natAbs < wholeLimit then .ok n else .error .wholeTooLarge
  | none => .error (if x.isFinite then .fractional else .notFinite)

/-- A whole number. -/
def readWhole : Json → Except Fault Int
  | .bool b => .ok (if b then 1 else 0)
  | .number (.int n) => .ok n
  | .number (.float x) => wholeOfFloat x
  | .string s => wholeOfText s
  | _ => .error .notWhole

/-! ### Ranges -/

/-- A number that is not below zero. -/
def readCount (j : Json) : Except Fault Number := do
  let n ← readNumber j
  if Number.lt 0 n || n.same 0 then return n else throw .belowZero

/-- A number above zero. -/
def readPositive (j : Json) : Except Fault Number := do
  let n ← readNumber j
  if Number.lt 0 n then return n else throw .notAboveZero

/-- A whole number that is not below zero. -/
def readWholeCount (j : Json) : Except Fault Int := do
  let n ← readWhole j
  if n < 0 then throw .belowZero
  return n

/-- A whole number above zero. -/
def readWholePositive (j : Json) : Except Fault Int := do
  let n ← readWhole j
  if n ≤ 0 then throw .notAboveZero
  return n

/-! ### Truth values and words -/

/-- The words for yes. -/
def yesWords : List String := ["1", "on", "t", "true", "y", "yes"]

/-- The words for no. -/
def noWords : List String := ["0", "off", "f", "false", "n", "no"]

/-- The truth value of 0 or 1. -/
def truthOfWhole (n : Int) : Except Fault Bool :=
  if n = 0 then .ok false else if n = 1 then .ok true else .error .unreadableTruthValue

/-- A truth value. A number is read as a whole number of 64 bits or else as a
floating-point number, and one that is not whole or too large is none. -/
def readTruthValue : Json → Except Fault Bool
  | .bool b => .ok b
  | .number n =>
    match n with
    | .int n =>
      if -(wholeLimit : Int) ≤ n && n < wholeLimit then truthOfWhole n
      else .error .notTruthValue
    | .float x =>
      match wholeOfFloat x with
      | .ok n => truthOfWhole n
      | .error _ => .error .notTruthValue
  | .string s =>
    let word := s.map Char.toLower
    if yesWords.contains word then .ok true
    else if noWords.contains word then .ok false
    else .error .unreadableTruthValue
  | _ => .error .notTruthValue

/-- A text. -/
def readText : Json → Except Fault String
  | .string s => .ok s
  | _ => .error .notText

/-- A text or nothing. -/
def readOptionalText : Json → Except Fault (Option String)
  | .null => .ok none
  | j => (readText j).map some

/-- A period, by its word. -/
def readPeriod (j : Json) : Except Fault Ledger.Period := do
  match Ledger.Period.ofName? (← readText j) with
  | some period => return period
  | none => throw .unknownPeriod

/-- A level, by its name in letters of any case. -/
def readLevel (j : Json) : Except Fault Log.Level := do
  match Log.commonLevel? (← readText j) with
  | some level => return level
  | none => throw .unknownLevel

end NoteGraph.Settings
