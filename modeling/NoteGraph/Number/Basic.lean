import NoteGraph.Number.Shortest

/-!
# Numbers

A number is a whole number of any size or a floating-point number. Both kinds compare
by value; arithmetic is done on floating-point numbers, and a whole number keeps its
kind only as long as it is not computed with.
-/

namespace NoteGraph

/-- A whole number or a floating-point number. -/
inductive Number where
  | int (value : Int)
  | float (value : Number.Binary64)
  deriving DecidableEq

namespace Number

instance : Zero Number := ⟨.int 0⟩
instance : Inhabited Number := ⟨.int 0⟩

/-- The nearest floating-point number. -/
def toBinary64 : Number → Binary64
  | int n => .ofInt n
  | float x => x

/-- Why a number cannot be computed with. -/
inductive RangeError where
  /-- A whole number is out of reach of floating-point numbers. -/
  | tooLarge
  /-- Rounding carries a number out of reach. -/
  | carriedOut
  /-- An infinite number has no whole part. -/
  | infinite
  /-- What is no number has no whole part. -/
  | undefined
  deriving DecidableEq

/-- What is reported of a number that cannot be computed with. -/
def RangeError.message : RangeError → String
  | tooLarge => "int too large to convert to float"
  | carriedOut => "rounded value too large to represent"
  | infinite => "cannot convert float infinity to integer"
  | undefined => "cannot convert float NaN to integer"

/-- A whole number that is out of reach of floating-point numbers. -/
def isTooLarge : Number → Bool
  | int n => !(Binary64.ofInt n).isFinite
  | float _ => false

/-- The whole part of a number. -/
def wholePart : Number → Except RangeError Int
  | int n => .ok n
  | float (.finite negative units _) =>
    .ok (Binary64.signedUnits negative (units / unitsPerOne))
  | float (.infinite _) => .error .infinite
  | float .undefined => .error .undefined

/-- The number as a floating-point number. -/
def toFloat (n : Number) : Number := .float n.toBinary64

/-- The text of a number. -/
def text : Number → String
  | int n => toString n
  | float x => x.text

/-- How two numbers compare by their exact values. -/
def compare? : Number → Number → Option Ordering
  | int a, int b => some (compare a b)
  | float a, float b => a.compare? b
  | int a, float b => compareInt a b
  | float a, int b => (compareInt b a).map Ordering.swap
where
  /-- A whole number against a floating-point number. -/
  compareInt (a : Int) : Binary64 → Option Ordering
    | .finite negative units _ =>
      some (compare (a * unitsPerOne) (Binary64.signedUnits negative units))
    | .infinite negative => some (if negative then .gt else .lt)
    | .undefined => none

/-- `a < b`. -/
def lt (a b : Number) : Bool := compare? a b == some .lt

/-- Equality by value: a whole number equals the floating-point number of its value. -/
def same (a b : Number) : Bool := compare? a b == some .eq

/-- A floating-point number, as a whole number if it is one. -/
def ofWhole (x : Binary64) : Number :=
  match x.toInt? with
  | some n => .int n
  | none => .float x

/-- Neither infinite nor undefined. -/
def isFinite : Number → Bool
  | int _ => true
  | float x => x.isFinite

/-- The number that a numeral writes, as a whole number if it is one. -/
def ofNumeral (text : String) : Except NumeralError Number :=
  (readNumeral text).map ofWhole

end Number

end NoteGraph
