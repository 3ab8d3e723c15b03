import NoteGraph.Number.Basic
import NoteGraph.Text.DecimalDigit
import NoteGraph.Text.Readings

/-!
# Amounts in a ledger

An opening balance is a plain decimal fraction. The amount of a transaction is the
longest numeral at the start of a cell; what follows it, such as a currency, is not
read.
-/

namespace NoteGraph.Ledger

open Text (isBlank isDigit run?)

/-- A sign, if there is one, and the rest. -/
def spanSign : List Char → List Char × List Char
  | '-' :: rest => (['-'], rest)
  | '+' :: rest => (['+'], rest)
  | cs => ([], cs)

/-- Whether a text is a decimal fraction without exponent, with digits on both sides of
a point. -/
def isPlainFraction (cs : List Char) : Bool :=
  match run? isDigit (spanSign cs).2 with
  | some (_, []) => true
  | some (_, '.' :: places) => !places.isEmpty && places.all isDigit
  | _ => false

/-- The digits and the point at the start of a text, if there is a digit among them, and
the rest. -/
def spanFraction? (cs : List Char) : Option (List Char × List Char) :=
  match run? isDigit cs with
  | some (whole, '.' :: rest) =>
    some (whole ++ '.' :: rest.takeWhile isDigit, rest.dropWhile isDigit)
  | some cut => some cut
  | none =>
    match cs with
    | '.' :: rest => (run? isDigit rest).map fun (places, rest) => ('.' :: places, rest)
    | _ => none

/-- The exponent at the start of a text; none is empty. -/
def leadingExponent : List Char → List Char
  | c :: rest =>
    if c = 'e' || c = 'E' then
      let (sign, rest) := spanSign rest
      match run? isDigit rest with
      | some (digits, _) => c :: sign ++ digits
      | none => []
    else []
  | [] => []

/-- The longest numeral at the start of a text, with the blanks before it. -/
def leadingNumeral? (cs : List Char) : Option (List Char) :=
  let (sign, rest) := spanSign (cs.dropWhile isBlank)
  (spanFraction? rest).map fun (fraction, rest) =>
    cs.takeWhile isBlank ++ sign ++ fraction ++ leadingExponent rest

/-- The number at the start of a text, if there is one. Blanks before it that may not
stand around a numeral are refused. -/
def leadingNumber (text : String) : Except Number.NumeralError (Option Number) :=
  match leadingNumeral? text.toList with
  | none => .ok none
  | some numeral => (Number.readNumeral (String.ofList numeral)).map fun x => some (.float x)

end NoteGraph.Ledger
