import NoteGraph.Number.Rounding

/-!
# Binary floating-point numbers of 64 bits

A finite number is a sign and a whole number of units, where a unit is the smallest
positive number, `2 ^ -1074`. Not every whole number of units is a number: at most 53
significant bits fit, and `2 ^ 1024` is out of reach. Every operation computes its
result exactly and rounds it once, to the nearest number that fits and of two equally
near to the one with an even last bit; what is rounded out of reach becomes infinite.
Powers are written with `Nat.pow`, which means the same whatever instances are in scope.
-/

namespace NoteGraph.Number

/-- The units in the number one, `2 ^ 1074`. -/
def unitsPerOne : Nat := Nat.pow 2 1074

/-- The units in the first power of two that is out of reach. -/
def unitsOutOfReach : Nat := Nat.pow 2 2098

/-- A whole number of units that a finite number can hold. -/
def Fits (units : Nat) : Prop :=
  (∃ significand exponent,
    significand ≤ Nat.pow 2 53 ∧ units = significand * Nat.pow 2 exponent) ∧
  units < unitsOutOfReach

/-- A binary floating-point number of 64 bits. -/
inductive Binary64 where
  /-- A sign and a number of units of `2 ^ -1074`; both signs have a zero. -/
  | finite (negative : Bool) (units : Nat) (fits : Fits units)
  | infinite (negative : Bool)
  /-- The result of an operation that has none, such as a difference of infinities. -/
  | undefined
  deriving DecidableEq

namespace Binary64

/-! ### Rounding -/

/-- The bits of a quotient of units that do not fit. -/
def excessBits (num den : Nat) : Nat := (num / den).log2 + 1 - 53

/-- The number of units nearest to `num / den` that has at most 53 significant bits. -/
def roundUnits (num den : Nat) : Nat :=
  let spacing := Nat.pow 2 (excessBits num den)
  roundDiv num (den * spacing) * spacing

theorem roundUnits_significand_le (num den : Nat) :
    roundDiv num (den * Nat.pow 2 (excessBits num den)) ≤ Nat.pow 2 53 := by
  simp only [Nat.pow_eq]
  have h1 := roundDiv_le num (den * 2 ^ excessBits num den)
  have h2 : num / den / 2 ^ excessBits num den < 2 ^ 53 := by
    apply Nat.div_lt_of_lt_mul
    rw [← Nat.pow_add]
    apply Nat.lt_of_lt_of_le Nat.lt_log2_self
    exact Nat.pow_le_pow_right (by decide) (by simp only [excessBits]; omega)
  rw [Nat.div_div_eq_div_mul] at h2
  omega

theorem fits_roundUnits {num den : Nat} (h : roundUnits num den < unitsOutOfReach) :
    Fits (roundUnits num den) :=
  ⟨⟨_, _, roundUnits_significand_le num den, rfl⟩, h⟩

/-- The number nearest to `num / den` units with the given sign. -/
def ofUnitRatio (negative : Bool) (num den : Nat) : Binary64 :=
  if h : roundUnits num den < unitsOutOfReach then
    .finite negative (roundUnits num den) (fits_roundUnits h)
  else .infinite negative

/-- The number nearest to a whole number of units. -/
def ofUnits (units : Int) : Binary64 := ofUnitRatio (units < 0) units.natAbs 1

/-- The number nearest to `num / den` with the given sign. -/
def ofRatio (negative : Bool) (num den : Nat) : Binary64 :=
  ofUnitRatio negative (num * unitsPerOne) den

/-- The number nearest to a whole number. -/
def ofInt (n : Int) : Binary64 := ofRatio (n < 0) n.natAbs 1

/-- Zero without a minus sign. -/
def zero : Binary64 := ofInt 0

instance : Zero Binary64 := ⟨zero⟩
instance : Inhabited Binary64 := ⟨zero⟩

/-! ### Sign and order -/

/-- The signed number of units. -/
def signedUnits (negative : Bool) (units : Nat) : Int :=
  if negative then -(units : Int) else units

/-- Neither infinite nor undefined. -/
def isFinite : Binary64 → Bool
  | finite .. => true
  | _ => false

/-- Below zero, or a zero with a minus sign. -/
def isNegative : Binary64 → Bool
  | finite negative _ _ => negative
  | infinite negative => negative
  | undefined => false

/-- The number with the other sign. -/
def neg : Binary64 → Binary64
  | finite negative units fits => finite (!negative) units fits
  | infinite negative => infinite (!negative)
  | undefined => undefined

instance : Neg Binary64 := ⟨neg⟩

/-- The number without its sign. -/
def abs : Binary64 → Binary64
  | finite _ units fits => finite false units fits
  | infinite _ => infinite false
  | undefined => undefined

/-- How two numbers compare; the zeros are equal, and nothing compares to `undefined`. -/
def compare? : Binary64 → Binary64 → Option Ordering
  | undefined, _ | _, undefined => none
  | finite n u _, finite m v _ => some (compare (signedUnits n u) (signedUnits m v))
  | infinite n, infinite m => some (compare m n)
  | infinite n, finite .. => some (if n then .lt else .gt)
  | finite .., infinite m => some (if m then .gt else .lt)

/-- `a < b`, which never holds of `undefined`. -/
def lt (a b : Binary64) : Bool := compare? a b == some .lt

/-- `a ≤ b`, which never holds of `undefined`. -/
def le (a b : Binary64) : Bool := compare? a b == some .lt || compare? a b == some .eq

/-- Equality of numbers: both zeros are equal and `undefined` equals nothing. -/
def same (a b : Binary64) : Bool := compare? a b == some .eq

/-! ### Arithmetic -/

/-- The sum; a sum of finite numbers that is zero is negative only when both are. -/
def add : Binary64 → Binary64 → Binary64
  | undefined, _ | _, undefined => undefined
  | finite n u hu, finite m v _ =>
    let sum := signedUnits n u + signedUnits m v
    if sum = 0 then if n && m then finite n u hu else zero else ofUnits sum
  | infinite n, infinite m => if n = m then infinite n else undefined
  | infinite n, finite .. => infinite n
  | finite .., infinite m => infinite m

instance : Add Binary64 := ⟨add⟩

/-- The difference. -/
def sub (a b : Binary64) : Binary64 := a + -b

instance : Sub Binary64 := ⟨sub⟩

/-- The whole number that a number is, if it is one. -/
def toInt? : Binary64 → Option Int
  | finite negative units _ =>
    if units % unitsPerOne = 0 then some (signedUnits negative (units / unitsPerOne)) else none
  | _ => none

/-- The nearest number with `places` decimals, and of two equally near the one with an
even last decimal. A negative count of places rounds before the point. Beyond 323
places every number is its own nearest, and before the 308th place every number is
rounded to zero. -/
def roundTo (places : Int) : Binary64 → Binary64
  | finite negative units fits =>
    if places > 323 then finite negative units fits
    else if places < -308 then ofUnitRatio negative 0 1
    else
      let up := Nat.pow 10 places.toNat
      let down := Nat.pow 10 (-places).toNat
      let scaled := roundDiv (units * up) (unitsPerOne * down)
      ofRatio negative (scaled * down) up
  | x => x

end Binary64

end NoteGraph.Number
