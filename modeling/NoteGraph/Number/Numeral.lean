import NoteGraph.Number.Binary64
import NoteGraph.Text.Blank
import NoteGraph.Text.DecimalDigit
import NoteGraph.Text.Quoted

/-!
# Reading numerals

A numeral is a decimal fraction with an optional sign and exponent, or a word for an
infinite or undefined number. Its digits may be those of any script, and a single
underscore may stand between two of them. It is read as the nearest number.
-/

namespace NoteGraph.Number

/-- A decimal fraction `digits * 10 ^ exponent` with a sign. -/
structure Decimal where
  negative : Bool
  digits : Nat
  exponent : Int
  deriving DecidableEq

/-- The number nearest to a decimal fraction. A fraction far out of reach, or far below
the smallest unit, is recognised by its exponent alone. -/
def Decimal.toBinary64 (d : Decimal) : Binary64 :=
  if d.digits = 0 then .ofRatio d.negative 0 1
  else if d.exponent > 400 then .infinite d.negative
  else if d.exponent + (d.digits.log2 / 3 + 2 : Nat) < -400 then .ofRatio d.negative 0 1
  else .ofRatio d.negative (d.digits * Nat.pow 10 d.exponent.toNat)
    (Nat.pow 10 (-d.exponent).toNat)

/-! ### Digits and their separators -/

/-- One of the ten ASCII digits. -/
def isPlainDigit (c : Char) : Bool := '0' ≤ c && c ≤ '9'

/-- A decimal digit of any script as an ASCII digit, any other character as it is. -/
def plainDigit (c : Char) : Char :=
  match Text.digitValue? c with
  | some value => Char.ofNat (48 + value)
  | none => c

/-- The whole number that a run of ASCII digits writes. -/
def digitsValue (cs : List Char) : Nat :=
  cs.foldl (fun value c => 10 * value + (c.toNat - 48)) 0

/-- A numeral without its underscores, if each of them stands between two digits.
`afterDigit` tells whether a digit stands before the text. -/
def dropSeparators? (afterDigit : Bool) : List Char → Option (List Char)
  | [] => some []
  | c :: rest =>
    if c = '_' then
      if afterDigit && rest.head?.any isPlainDigit then dropSeparators? false rest else none
    else (dropSeparators? (isPlainDigit c) rest).map (c :: ·)

/-! ### The parts of a numeral -/

/-- A sign, if there is one, and the rest. -/
def cutSign : List Char → Bool × List Char
  | '-' :: rest => (true, rest)
  | '+' :: rest => (false, rest)
  | cs => (false, cs)

/-- The exponent that ends a numeral: `e` or `E`, a sign and at least one digit, or
nothing. -/
def readExponent? : List Char → Option Int
  | [] => some 0
  | c :: rest =>
    let (negative, digits) := cutSign rest
    if (c = 'e' || c = 'E') && !digits.isEmpty && digits.all isPlainDigit then
      some (if negative then -(digitsValue digits : Int) else digitsValue digits)
    else none

/-- A decimal fraction: digits with at most one point among them, at least one digit,
and an exponent. -/
def readFraction? (negative : Bool) (cs : List Char) : Option Decimal :=
  let whole := cs.takeWhile isPlainDigit
  let rest := cs.dropWhile isPlainDigit
  let (places, rest) :=
    match rest with
    | '.' :: after => (after.takeWhile isPlainDigit, after.dropWhile isPlainDigit)
    | _ => ([], rest)
  if whole.isEmpty && places.isEmpty then none
  else
    (readExponent? rest).map fun exponent =>
      ⟨negative, digitsValue (whole ++ places), exponent - places.length⟩

/-- A word for a number that no decimal fraction writes. -/
def readWord? (negative : Bool) (cs : List Char) : Option Binary64 :=
  let word := cs.map Char.toLower
  if word = "inf".toList || word = "infinity".toList then some (.infinite negative)
  else if word = "nan".toList then some .undefined
  else none

/-- The blanks that may stand around a numeral: all but the information separators. -/
def isPadding (c : Char) : Bool :=
  Text.isBlank c && !(28 ≤ c.toNat && c.toNat ≤ 31)

/-- The number that a numeral writes. -/
def readNumeral? (cs : List Char) : Option Binary64 := do
  let bare := Text.dropWhileRight isPadding (cs.dropWhile isPadding)
  let (negative, rest) := cutSign (← dropSeparators? false (bare.map plainDigit))
  match readFraction? negative rest with
  | some decimal => some decimal.toBinary64
  | none => readWord? negative rest

/-- A text that is no numeral. -/
structure NumeralError where
  text : String
  deriving DecidableEq

/-- What is reported of a text that is no numeral. -/
def NumeralError.message (e : NumeralError) : String :=
  "could not convert string to float: " ++ Text.quoted e.text

/-- The number that a numeral writes, or the complaint that the text is none. -/
def readNumeral (text : String) : Except NumeralError Binary64 :=
  match readNumeral? text.toList with
  | some value => .ok value
  | none => .error ⟨text⟩

end NoteGraph.Number
