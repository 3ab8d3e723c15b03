import NoteGraph.Number.Basic

/-!
# Quantities

What a net needs of the numbers that its places hold and its arcs move. The program
runs on numbers with floating-point arithmetic; laws of exact arithmetic are stated for
the same nets over other quantities.
-/

namespace NoteGraph

/-- Numbers that can be added, compared and rounded. -/
class Quantity (α : Type) extends Zero α, Add α, Sub α, Neg α where
  /-- `a ≤ b`. -/
  atMost : α → α → Bool
  /-- `a < b`. -/
  below : α → α → Bool
  /-- The quantity without its sign. -/
  magnitude : α → α
  /-- The nearest quantity with a number of decimals. -/
  roundTo : Int → α → α
  /-- The form in which a count is kept. -/
  count : α → α
  /-- Counts that differ by less are taken as equal. -/
  slack : α
  /-- What the amounts of a group add up to in a report. -/
  total : List α → α

/-- What is no number is not even equal to itself. -/
def Quantity.isNumber {α : Type} [Quantity α] (a : α) : Bool := Quantity.atMost a a

namespace Number

/-- The sum as a floating-point number. -/
def add (a b : Number) : Number := .float (a.toBinary64 + b.toBinary64)

/-- The difference as a floating-point number. -/
def sub (a b : Number) : Number := .float (a.toBinary64 - b.toBinary64)

/-- The opposite as a floating-point number. -/
def neg (a : Number) : Number := .float (-a.toBinary64)

/-- `a ≤ b`. -/
def le (a b : Number) : Bool := lt a b || same a b

/-- The nearest number with `places` decimals, zero without a sign. -/
def roundMoney (places : Int) (a : Number) : Number :=
  let rounded := a.toBinary64.roundTo places
  .float (if rounded.same 0 then 0 else rounded)

/-- Whether rounding carries a finite number out of reach. -/
def carriesOut (places : Int) (a : Number) : Bool :=
  a.isFinite && !(roundMoney places a).isFinite

/-- The tolerance of counts, `10 ^ -12`. -/
def tolerance : Number := .float (Decimal.mk false 1 (-12)).toBinary64

/-- Adds an amount to a total, with what the rounding of the last addition gained, and keeps what
the rounding of this one gains. A gain that is no number is forgotten. -/
def compensate (state : Number × Number) (amount : Number) : Number × Number :=
  let (total, gained) := state
  let due := sub amount gained
  let next := add total due
  let gained := sub (sub next total) due
  (next, if le gained gained then gained else toFloat 0)

/-- The sum of amounts in their order, each rounding made good by the next addition. -/
def compensatedSum (amounts : List Number) : Number :=
  (amounts.foldl compensate (toFloat 0, toFloat 0)).1

instance : Quantity Number where
  add := add
  sub := sub
  neg := neg
  atMost a b := le a.toFloat b.toFloat
  below a b := lt a.toFloat b.toFloat
  magnitude a := .float a.toBinary64.abs
  roundTo := roundMoney
  count a := ofWhole a.toBinary64
  slack := tolerance
  total := compensatedSum

/-- The nearest number with `places` decimals, if it is in reach. -/
def rounded (places : Int) (a : Number) : Except RangeError Number :=
  if a.isTooLarge then .error .tooLarge
  else if a.carriesOut places then .error .carriedOut
  else .ok (roundMoney places a)

/-- A hash of a number; equal numbers of one kind have the same. -/
def hashOf : Number → UInt64
  | int n => mixHash 1 (hash n)
  | float (.finite negative units _) =>
    let size := units.log2
    mixHash (hash negative) (mixHash (hash size) (hash (units >>> (size - 52))))
  | float (.infinite negative) => mixHash 2 (hash negative)
  | float .undefined => 3

instance : Hashable Number := ⟨hashOf⟩

end Number

end NoteGraph
