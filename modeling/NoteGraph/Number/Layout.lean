import NoteGraph.Number.Shortest

/-!
# Numbers with a given precision

A number is laid out with a count of places after the point, with an exponent, or in
whichever of the two ways suits its size. It is rounded once from its exact value, to an
even last digit if two are equally near. On demand a point is kept that no digit follows,
and so are the zeros at the end that the last layout would drop.
-/

namespace NoteGraph.Number

/-- A way to lay out a number. -/
inductive Layout where
  /-- With places after the point. -/
  | fixed
  /-- With one digit before the point, and an exponent. -/
  | scientific
  /-- With a count of digits, and an exponent for a number that is large or small. -/
  | general
  deriving DecidableEq

/-- Digits after a point; without digits the point is left out unless it is kept. -/
def withPoint (keep : Bool) (places : List Char) : List Char :=
  if places.isEmpty && !keep then [] else '.' :: places

/-- A number of units with `places` digits after the point. -/
def fixedText (keep : Bool) (places units : Nat) : List Char :=
  let scale := Nat.pow 10 places
  let scaled := roundDiv (units * scale) unitsPerOne
  let fraction := if places = 0 then [] else
    (decimalDigits (scaled % scale)).leftpad places '0'
  decimalDigits (scaled / scale) ++ withPoint keep fraction

/-- The first `count` digits of a number of units, and the place of the point counted
from the first of them. -/
def leadingDigits (count units : Nat) : List Char × Int :=
  if units = 0 then (List.replicate count '0', 1)
  else
    let point := pointPosition units
    let (num, den) := scaleUnits units (count - point)
    let value := roundDiv num den
    if value = Nat.pow 10 count then (decimalDigits (value / 10), point + 1)
    else (decimalDigits value, point)

/-- Digits with a point after the first and an exponent. -/
def exponentForm (keep : Bool) (digits : List Char) (point : Int) : List Char :=
  digits.take 1 ++ withPoint keep (digits.drop 1) ++ 'e' :: exponentText (point - 1)

/-- A number of units with one digit before the point and `places` after it. -/
def scientificText (keep : Bool) (places units : Nat) : List Char :=
  let (digits, point) := leadingDigits (places + 1) units
  exponentForm keep digits point

/-- Digits with the point at its place. -/
def pointForm (keep : Bool) (digits : List Char) (point : Int) : List Char :=
  if point ≤ 0 then '0' :: '.' :: List.replicate (-point).toNat '0' ++ digits
  else
    digits.take point.toNat ++ List.replicate (point.toNat - digits.length) '0' ++
      withPoint keep (digits.drop point.toNat)

/-- A number of units with `count` digits, but at least one; an exponent is used from
`10 ^ count` on and below a ten thousandth. -/
def generalText (keep : Bool) (count units : Nat) : List Char :=
  let count := max 1 count
  let (digits, point) := leadingDigits count units
  let digits :=
    if keep then digits
    else digits.take 1 ++ Text.dropWhileRight (· == '0') (digits.drop 1)
  if -4 < point && point ≤ count then pointForm keep digits point
  else exponentForm keep digits point

/-- A number without its sign. -/
def layOut (layout : Layout) (keep : Bool) (precision : Nat) : Binary64 → List Char
  | .finite _ units _ =>
    match layout with
    | .fixed => fixedText keep precision units
    | .scientific => scientificText keep precision units
    | .general => generalText keep precision units
  | .infinite _ => "inf".toList
  | .undefined => "nan".toList

end NoteGraph.Number
