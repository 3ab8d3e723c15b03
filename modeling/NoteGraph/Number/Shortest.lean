import NoteGraph.Number.Numeral

/-!
# The shortest decimal fraction of a number

Of all decimal fractions that are read back as a given number, those with the fewest
digits are the shortest, and of these the one nearest to the number is written. It is
written with a point while its first digit lies between the fourth place after the
point and the sixteenth before it, and with an exponent otherwise.
-/

namespace NoteGraph.Number

/-- A positive whole number of units as `num / den * 10 ^ -shift`. -/
def scaleUnits (units : Nat) (shift : Int) : Nat × Nat :=
  (units * Nat.pow 10 shift.toNat, unitsPerOne * Nat.pow 10 (-shift).toNat)

/-- The least `p` with the number below `10 ^ p`, among four near its logarithm. -/
def pointPosition (units : Nat) : Int :=
  let guess := ((units.log2 : Int) - 1074) * 30103 / 100000
  let below (p : Int) : Bool :=
    let (num, den) := scaleUnits units (-p)
    num < den
  ([guess - 1, guess, guess + 1, guess + 2].find? below).getD (guess + 3)

/-- Whether a decimal fraction is read back as the positive number of `units`. -/
def readsBack (units digits : Nat) (exponent : Int) : Bool :=
  match (Decimal.mk false digits exponent).toBinary64 with
  | .finite _ back _ => back == units
  | _ => false

/-- The fraction nearest to the number among those with the last digit at
`10 ^ exponent` that are read back as the number, an even last digit if two are equally
near. -/
def nearestOnGrid? (units : Nat) (exponent : Int) : Option Nat :=
  let (num, den) := scaleUnits units (-exponent)
  let low := num / den
  let near := roundDiv num den
  let far := if near = low then low + 1 else low
  [near, far].find? fun digits => digits != 0 && readsBack units digits exponent

/-- The digits and the exponent of the shortest decimal fraction of a positive number.
Seventeen digits always suffice. -/
def shortest (units : Nat) : Nat × Int :=
  let p := pointPosition units
  ((List.range 17).findSome? fun i =>
      let exponent := p - (i + 1 : Nat)
      (nearestOnGrid? units exponent).map fun digits => (digits, exponent)).getD (0, 0)

/-! ### Writing -/

/-- The decimal digits of a whole number. -/
def decimalDigits (n : Nat) : List Char := Nat.toDigits 10 n

/-- An exponent of at least two digits with its sign. -/
def exponentText (e : Int) : List Char :=
  let digits := decimalDigits e.natAbs
  (if e < 0 then '-' else '+') :: List.replicate (2 - digits.length) '0' ++ digits

/-- Digits with a point after the first `point` of them, zeros filled in on either side. -/
def placePoint (digits : List Char) (point : Int) : List Char :=
  if point ≤ 0 then '0' :: '.' :: List.replicate (-point).toNat '0' ++ digits
  else
    let before := digits.take point.toNat
    let after := digits.drop point.toNat
    before ++ List.replicate (point.toNat - digits.length) '0' ++
      '.' :: (if after.isEmpty then ['0'] else after)

/-- Digits with an exponent: a point after the first digit unless it is the only one. -/
def withExponent (digits : List Char) (point : Int) : List Char :=
  digits.take 1 ++ (if digits.length ≤ 1 then [] else '.' :: digits.drop 1) ++
    'e' :: exponentText (point - 1)

/-- The text of a positive number of units. -/
def unitsText (units : Nat) : List Char :=
  let (value, exponent) := shortest units
  let all := decimalDigits value
  let digits := Text.dropWhileRight (· == '0') all
  let point := exponent + all.length
  if -4 < point && point ≤ 16 then placePoint digits point else withExponent digits point

/-- The text of a number: the shortest decimal fraction that is read back as it. -/
def Binary64.text : Binary64 → String
  | .finite negative units _ =>
    let body := if units = 0 then "0.0" else String.ofList (unitsText units)
    if negative then "-" ++ body else body
  | .infinite negative => if negative then "-inf" else "inf"
  | .undefined => "nan"

end NoteGraph.Number
