import NoteGraph.Json.Basic
import NoteGraph.Keyed

/-!
# Reading JSON

A text is read as one value with nothing but blanks around it. The words `NaN`,
`Infinity` and `-Infinity` are numbers too. The first fault ends the reading. A fault of
form is reported with its place: the line, the column and the number of characters
before it. Whole numbers of very many digits and very deep nesting are refused.
-/

namespace NoteGraph.Json

/-- What is wrong with a text. -/
inductive Fault where
  | byteOrderMark
  | value
  | extraData
  | fieldName
  | colon
  | comma
  | unterminatedString
  | controlCharacter
  | escape
  | unicodeEscape
  /-- A whole number with this many digits. -/
  | tooManyDigits (count : Nat)
  | arraysTooDeep
  | objectsTooDeep
  deriving DecidableEq

/-- The most digits that a whole number may have. -/
def maxDigits : Nat := 4300

/-- The number of levels to which values may be nested. -/
def maxDepth : Nat := 990

/-- A fault of form, which has a place in the text. -/
def Fault.isOfForm : Fault → Bool
  | tooManyDigits _ | arraysTooDeep | objectsTooDeep => false
  | _ => true

/-- What is reported of a fault. -/
def Fault.message : Fault → String
  | byteOrderMark => "Unexpected UTF-8 BOM (decode using utf-8-sig)"
  | value => "Expecting value"
  | extraData => "Extra data"
  | fieldName => "Expecting property name enclosed in double quotes"
  | colon => "Expecting ':' delimiter"
  | comma => "Expecting ',' delimiter"
  | unterminatedString => "Unterminated string starting at"
  | controlCharacter => "Invalid control character at"
  | escape => "Invalid \\escape"
  | unicodeEscape => "Invalid \\uXXXX escape"
  | tooManyDigits count =>
    "Exceeds the limit (" ++ toString maxDigits ++ " digits) for integer string conversion: " ++
      "value has " ++ toString count ++ " digits; " ++
      "use sys.set_int_max_str_digits() to increase the limit"
  | arraysTooDeep =>
    "maximum recursion depth exceeded while decoding a JSON array from a unicode string"
  | objectsTooDeep =>
    "maximum recursion depth exceeded while decoding a JSON object from a unicode string"

/-- A fault, with the number of characters that follow the place where it is. -/
structure FaultBefore where
  fault : Fault
  remaining : Nat
  deriving DecidableEq

/-- A fault with the text and the place where it is. -/
structure ReadError where
  fault : Fault
  text : List Char
  position : Nat
  deriving DecidableEq

/-- What is reported of a text that is no value. -/
def ReadError.message (e : ReadError) : String :=
  let before := e.text.take e.position
  let line := before.count '\n' + 1
  let column := (before.reverse.takeWhile (· != '\n')).length + 1
  if e.fault.isOfForm then
    e.fault.message ++ ": line " ++ toString line ++ " column " ++ toString column ++
      " (char " ++ toString e.position ++ ")"
  else e.fault.message

/-- The outcome of reading the front of a text: a result and the rest. -/
abbrev Reading (α : Type) := Except FaultBefore (α × List Char)

/-- The blanks between the parts of a value. -/
def isSpace (c : Char) : Bool := c = ' ' || c = '\t' || c = '\n' || c = '\r'

/-- A text without the blanks at its start. -/
def skipSpace (cs : List Char) : List Char := cs.dropWhile isSpace

/-- A fault at the start of `cs`. -/
def faultAt (fault : Fault) (cs : List Char) : FaultBefore := ⟨fault, cs.length⟩

/-! ### Strings -/

/-- The value of a hexadecimal digit. -/
def hexValue? (c : Char) : Option Nat :=
  if '0' ≤ c && c ≤ '9' then some (c.toNat - 48)
  else if 'a' ≤ c && c ≤ 'f' then some (c.toNat - 87)
  else if 'A' ≤ c && c ≤ 'F' then some (c.toNat - 55)
  else none

/-- The unit that four hexadecimal digits write, and what follows them, which must not
be nothing. -/
def readUnit? : List Char → Option (Nat × List Char)
  | a :: b :: c :: d :: rest => do
    if rest.isEmpty then none
    let unit := ((← hexValue? a) * 16 + (← hexValue? b)) * 16 + (← hexValue? c)
    some (unit * 16 + (← hexValue? d), rest)
  | _ => none

/-- A leading half of a pair of units. -/
def isLeadingUnit (n : Nat) : Bool := 0xD800 ≤ n && n < 0xDC00

/-- A trailing half of a pair of units. -/
def isTrailingUnit (n : Nat) : Bool := 0xDC00 ≤ n && n < 0xE000

/-- The character of a unit, or the replacement character for half of a pair. -/
def unitChar (n : Nat) : Char :=
  if isLeadingUnit n || isTrailingUnit n then '\uFFFD' else Char.ofNat n

/-- The character that an escape with four digits writes; `cs` follows its `u`. Two
escapes that are the halves of a pair write one character. -/
def readUnitEscape (cs : List Char) : Reading Char :=
  let fault : FaultBefore := ⟨.unicodeEscape, cs.length + 1⟩
  match readUnit? cs with
  | none => .error fault
  | some (leading, rest) =>
    match rest with
    | '\\' :: 'u' :: more =>
      if isLeadingUnit leading && 4 < more.length then
        match readUnit? more with
        | none => .error ⟨.unicodeEscape, more.length + 1⟩
        | some (trailing, after) =>
          if isTrailingUnit trailing then
            .ok (Char.ofNat (0x10000 + (leading - 0xD800) * 1024 + (trailing - 0xDC00)), after)
          else .ok (unitChar leading, rest)
      else .ok (unitChar leading, rest)
    | _ => .ok (unitChar leading, rest)

/-- The character that a one-letter escape writes. -/
def letterEscape? : Char → Option Char
  | '"' => some '"'
  | '\\' => some '\\'
  | '/' => some '/'
  | 'b' => some (Char.ofNat 8)
  | 'f' => some (Char.ofNat 12)
  | 'n' => some '\n'
  | 'r' => some '\r'
  | 't' => some '\t'
  | _ => none

/-- The characters of a string up to its closing quote. `start` is the number of
characters from the opening quote on, and `done` holds the characters read, last
first. Every step reads at least one character, so `fuel` for each of them suffices. -/
def readString (start : Nat) : Nat → List Char → List Char → Reading String
  | 0, _, _ => .error ⟨.unterminatedString, start⟩
  | fuel + 1, done, cs =>
    match cs with
    | [] => .error ⟨.unterminatedString, start⟩
    | c :: rest =>
      if c = '"' then .ok (String.ofList done.reverse, rest)
      else if c.toNat < 32 then .error (faultAt .controlCharacter cs)
      else if c = '\\' then
        match rest with
        | [] => .error ⟨.unterminatedString, start⟩
        | 'u' :: more =>
          match readUnitEscape more with
          | .error e => .error e
          | .ok (value, after) => readString start fuel (value :: done) after
        | letter :: more =>
          match letterEscape? letter with
          | some value => readString start fuel (value :: done) more
          | none => .error (faultAt .escape cs)
      else readString start fuel (c :: done) rest

/-! ### Numbers -/

/-- The run of digits after a point, with the point, if there is one. -/
def cutPlaces (cs : List Char) : List Char × List Char :=
  match cs with
  | '.' :: rest =>
    let digits := rest.takeWhile Number.isPlainDigit
    if digits.isEmpty then ([], cs) else ('.' :: digits, rest.dropWhile Number.isPlainDigit)
  | _ => ([], cs)

/-- An exponent with at least one digit, if there is one. -/
def cutExponent (cs : List Char) : List Char × List Char :=
  match cs with
  | c :: rest =>
    if c = 'e' || c = 'E' then
      let (sign, rest) :=
        match rest with
        | '+' :: more => (['+'], more)
        | '-' :: more => (['-'], more)
        | _ => ([], rest)
      let digits := rest.takeWhile Number.isPlainDigit
      if digits.isEmpty then ([], cs)
      else (c :: sign ++ digits, rest.dropWhile Number.isPlainDigit)
    else ([], cs)
  | [] => ([], cs)

/-- A number without its sign: digits without a needless leading zero, decimal places
and an exponent. Without the last two it is a whole number. -/
def readNumber (negative : Bool) (cs : List Char) : Except Fault (Number × List Char) :=
  let run := cs.takeWhile Number.isPlainDigit
  let whole := if run.head? = some '0' then ['0'] else run
  if whole.isEmpty then .error .value
  else
    let (places, rest) := cutPlaces (cs.drop whole.length)
    let (exponent, rest) := cutExponent rest
    if places.isEmpty && exponent.isEmpty then
      if maxDigits < whole.length then .error (.tooManyDigits whole.length)
      else
        let magnitude : Int := Number.digitsValue whole
        .ok (.int (if negative then -magnitude else magnitude), rest)
    else
      match Number.readFraction? negative (whole ++ places ++ exponent) with
      | some decimal => .ok (.float decimal.toBinary64, rest)
      | none => .error .value

/-- The values that are written as words. -/
def wordValues : List (List Char × Json) :=
  [("null".toList, .null), ("true".toList, .bool true), ("false".toList, .bool false),
   ("NaN".toList, float .undefined), ("Infinity".toList, float (.infinite false)),
   ("-Infinity".toList, float (.infinite true))]

/-- A number or a word. -/
def readScalar (cs : List Char) : Reading Json :=
  match wordValues.find? fun (word, _) => word.isPrefixOf cs with
  | some (word, value) => .ok (value, cs.drop word.length)
  | none =>
    let number :=
      match cs with
      | '-' :: rest => readNumber true rest
      | _ => readNumber false cs
    match number with
    | .ok (value, rest) => .ok (.number value, rest)
    | .error fault => .error (faultAt fault cs)

/-! ### Values -/

mutual

/-- The value at the start of a text, inside of which `depth` more levels may be
nested. -/
def readValue (depth : Nat) : Nat → List Char → Reading Json
  | 0, cs => .error (faultAt .value cs)
  | fuel + 1, cs =>
    match cs, depth with
    | '"' :: rest, _ =>
      (readString cs.length cs.length [] rest).map fun (value, after) => (.string value, after)
    | '\x7b' :: _, 0 => .error (faultAt .objectsTooDeep cs)
    | '\x7b' :: rest, depth + 1 =>
      match skipSpace rest with
      | '\x7d' :: after => .ok (.object [], after)
      | inner => readFields depth fuel [] inner
    | '[' :: _, 0 => .error (faultAt .arraysTooDeep cs)
    | '[' :: rest, depth + 1 =>
      match skipSpace rest with
      | ']' :: after => .ok (.array [], after)
      | inner => readItems depth fuel [] inner
    | _, _ => readScalar cs

/-- The items of an array from one of them on; `done` holds those before, last first. -/
def readItems (depth : Nat) : Nat → List Json → List Char → Reading Json
  | 0, _, cs => .error (faultAt .value cs)
  | fuel + 1, done, cs =>
    match readValue depth fuel cs with
    | .error e => .error e
    | .ok (item, rest) =>
      match skipSpace rest with
      | ']' :: after => .ok (.array (item :: done).reverse, after)
      | ',' :: after => readItems depth fuel (item :: done) (skipSpace after)
      | other => .error (faultAt .comma other)

/-- The fields of an object from one of them on. -/
def readFields (depth : Nat) : Nat → List (String × Json) → List Char → Reading Json
  | 0, _, cs => .error (faultAt .fieldName cs)
  | fuel + 1, done, cs =>
    match cs with
    | '"' :: rest =>
      match readString cs.length cs.length [] rest with
      | .error e => .error e
      | .ok (key, after) =>
        match skipSpace after with
        | ':' :: inner =>
          match readValue depth fuel (skipSpace inner) with
          | .error e => .error e
          | .ok (value, rest) =>
            let fields := Keyed.put done key value
            match skipSpace rest with
            | '\x7d' :: after => .ok (.object fields, after)
            | ',' :: after => readFields depth fuel fields (skipSpace after)
            | other => .error (faultAt .comma other)
        | other => .error (faultAt .colon other)
    | _ => .error (faultAt .fieldName cs)

end

/-- A text as one value. Every nested value starts later in the text than the one that
holds it, so one level more than the text has characters suffices. -/
def parse (text : String) : Except ReadError Json :=
  let cs := text.toList
  let fail (e : FaultBefore) : ReadError := ⟨e.fault, cs, cs.length - e.remaining⟩
  if cs.head? = some '\uFEFF' then .error ⟨.byteOrderMark, cs, 0⟩
  else
    match readValue maxDepth (2 * cs.length + 2) (skipSpace cs) with
    | .error e => .error (fail e)
    | .ok (value, rest) =>
      let rest := skipSpace rest
      if rest.isEmpty then .ok value else .error (fail (faultAt .extraData rest))

end NoteGraph.Json
