import Mathlib.Algebra.Order.Field.Rat
import Mathlib.Algebra.Order.Ring.Abs
import Mathlib.Algebra.Order.Ring.Cast
import NoteGraph.Proofs.Number.Monotone

/-!
# The nearest number

A quotient is rounded to a floating-point number that no other is nearer to, where the infinite
numbers stand at the first powers of two that are out of reach. So a fraction is kept as it is
exactly if it is the value of a floating-point number.
-/

namespace NoteGraph.Number

/-- Of the multiples of a divisor the rounded quotient gives the nearest one. -/
theorem natAbs_sub_roundDiv_le (num j : ℕ) {den : ℕ} (h : 0 < den) :
    ((num : ℤ) - (roundDiv num den * den : ℕ)).natAbs ≤ ((num : ℤ) - (j * den : ℕ)).natAbs := by
  have hnum := Nat.div_add_mod' num den
  have hrest := Nat.mod_lt num h
  have hnext : (num / den + 1) * den = num / den * den + den := by ring
  have hj : j * den ≤ num / den * den ∨ num / den * den + den ≤ j * den := by
    rcases Nat.lt_or_ge (num / den) j with hlt | hge
    · exact Or.inr (hnext ▸ Nat.mul_le_mul_right den hlt)
    · exact Or.inl (Nat.mul_le_mul_right den hge)
  simp only [roundDiv]
  split_ifs <;> omega

namespace Binary64

/-! ### The nearest number of units -/

theorem excessBits_eq (num den : ℕ) : excessBits num den = excessBits (num / den) 1 := by
  rw [excessBits, excessBits, Nat.div_one]

/-- No number of at most 53 significant bits is nearer to a quotient than what it is rounded
to. -/
theorem natAbs_sub_roundUnits_le (num : ℕ) {den s : ℕ} (hden : 0 < den) (hs : s ≤ 2 ^ 53)
    (e : ℕ) : ((num : ℤ) - (roundUnits num den * den : ℕ)).natAbs ≤
      ((num : ℤ) - (s * 2 ^ e * den : ℕ)).natAbs := by
  let excess := excessBits num den
  have hspacing : 0 < den * 2 ^ excess := Nat.mul_pos hden (Nat.two_pow_pos _)
  have hround : roundUnits num den * den =
      roundDiv num (den * 2 ^ excess) * (den * 2 ^ excess) := by
    rw [roundUnits, Nat.pow_eq]
    ring
  have hmultiple (j : ℕ) := natAbs_sub_roundDiv_le num j hspacing
  rw [hround]
  rcases Nat.lt_or_ge e excess with hlt | hge
  · -- a power of two that is a multiple of the spacing lies between
    have hlow : 2 ^ (52 + excess) ≤ num / den := by
      have := @le_of_excessBits_pos (num / den)
      rw [← excessBits_eq] at this
      exact this (Nat.zero_lt_of_lt hlt)
    have hbelow : 2 ^ (52 + excess) * den ≤ num := (Nat.le_div_iff_mul_le hden).mp hlow
    have hbetween : s * 2 ^ e ≤ 2 ^ (52 + excess) :=
      calc s * 2 ^ e ≤ 2 ^ 53 * 2 ^ e := Nat.mul_le_mul_right _ hs
        _ = 2 ^ (53 + e) := (pow_add 2 53 e).symm
        _ ≤ 2 ^ (52 + excess) := Nat.pow_le_pow_right (by decide) (by omega)
    have hscaled := Nat.mul_le_mul_right den hbetween
    have hnear := hmultiple (2 ^ 52)
    have hpower : 2 ^ 52 * (den * 2 ^ excess) = 2 ^ (52 + excess) * den := by
      rw [pow_add]
      ring
    rw [hpower] at hnear
    omega
  · have hmul : s * 2 ^ e * den = s * 2 ^ (e - excess) * (den * 2 ^ excess) := by
      rw [← Nat.sub_add_cancel hge, pow_add, Nat.add_sub_cancel]
      ring
    rw [hmul]
    exact hmultiple _

theorem exists_unitsOutOfReach_eq : ∃ e, unitsOutOfReach = 2 ^ e := ⟨_, Nat.pow_eq⟩

/-- What is rounded out of reach lies out of reach. -/
theorem natAbs_sub_extent_le_of_le (num : ℕ) {den s : ℕ} (hden : 0 < den) (hs : s ≤ 2 ^ 53)
    {e : ℕ} (hreach : s * 2 ^ e ≤ unitsOutOfReach) :
    ((num : ℤ) - (ofUnitRatio false num den).extent * den).natAbs ≤
      ((num : ℤ) - (s * 2 ^ e * den : ℕ)).natAbs := by
  rw [extent_ofUnitRatio, signedUnits_false, ← Int.natCast_mul]
  rcases Nat.lt_or_ge unitsOutOfReach (roundUnits num den) with hlt | hge
  · obtain ⟨out, hout⟩ := exists_unitsOutOfReach_eq
    have hnear := natAbs_sub_roundUnits_le num hden (s := 1) (by decide) out
    have hfar := Nat.mul_lt_mul_of_pos_right hlt hden
    have hscaled := Nat.mul_le_mul_right den hreach
    rw [Nat.one_mul, ← hout] at hnear
    rw [Nat.min_eq_right hlt.le]
    omega
  · rw [Nat.min_eq_left hge]
    exact natAbs_sub_roundUnits_le num hden hs e

theorem extent_cases (y : Binary64) : y.extent ≤ 0 ∨
    ∃ s e, s ≤ 2 ^ 53 ∧ s * 2 ^ e ≤ unitsOutOfReach ∧ y.extent = (s * 2 ^ e : ℕ) := by
  cases y with
  | undefined => exact Or.inl le_rfl
  | infinite negative =>
    cases negative with
    | true => exact Or.inl (by change -(unitsOutOfReach : ℤ) ≤ 0; omega)
    | false =>
      obtain ⟨out, hout⟩ := exists_unitsOutOfReach_eq
      refine Or.inr ⟨1, out, by decide, ?_, ?_⟩ <;> rw [Nat.one_mul, ← hout]
      rfl
  | finite negative units fits =>
    cases negative with
    | true => exact Or.inl (by rw [extent_finite, signedUnits_true]; omega)
    | false =>
      obtain ⟨s, e, hs, heq⟩ := fits.1
      simp only [Nat.pow_eq] at hs heq
      exact Or.inr ⟨s, e, hs, heq ▸ fits.2.le, by rw [extent_finite, signedUnits_false, heq]⟩

theorem natAbs_sub_extent_le (num : ℕ) {den : ℕ} (hden : 0 < den) (y : Binary64) :
    ((num : ℤ) - (ofUnitRatio false num den).extent * den).natAbs ≤
      ((num : ℤ) - y.extent * den).natAbs := by
  rcases y.extent_cases with hneg | ⟨s, e, hs, hreach, heq⟩
  · have hzero := natAbs_sub_extent_le_of_le num hden (s := 0) (by decide) (e := 0)
      (Nat.zero_le _)
    have hprod : y.extent * den ≤ 0 := Int.mul_nonpos_of_nonpos_of_nonneg hneg (by omega)
    rw [Nat.zero_mul, Nat.zero_mul] at hzero
    omega
  · rw [heq, ← Int.natCast_mul]
    exact natAbs_sub_extent_le_of_le num hden hs hreach

/-- A floating-point number is nearest to a fraction if no other is nearer; the infinite numbers
stand where the first powers of two that are out of reach do. -/
def IsNearest (q : ℚ) (x : Binary64) : Prop :=
  x ≠ undefined ∧ ∀ y : Binary64, |q * unitsPerOne - x.extent| ≤ |q * unitsPerOne - y.extent|

/-- **Rounding to the nearest number**: no floating-point number is nearer to a quotient than the
one that it is rounded to. -/
theorem isNearest_ofRatio (num : ℕ) {den : ℕ} (hden : 0 < den) :
    IsNearest ((num : ℚ) / den) (ofRatio false num den) := by
  refine ⟨ofUnitRatio_ne_undefined _ _ _, fun y => ?_⟩
  have hpos : (0 : ℚ) < den := by exact_mod_cast hden
  have hscale (x : Binary64) : |(num : ℚ) / den * unitsPerOne - x.extent| * den =
      (((num * unitsPerOne : ℕ) : ℤ) - x.extent * den).natAbs := by
    rw [Nat.cast_natAbs, Int.cast_abs]
    conv_lhs => rw [← abs_of_pos hpos, ← abs_mul, abs_of_pos hpos]
    rw [sub_mul, mul_right_comm, div_mul_cancel₀ _ hpos.ne', Int.cast_sub, Int.cast_mul,
      Int.cast_natCast, Int.cast_natCast, Nat.cast_mul]
  have hnear := natAbs_sub_extent_le (num * unitsPerOne) hden y
  refine le_of_mul_le_mul_right ?_ hpos
  rw [hscale, hscale]
  exact_mod_cast hnear

end Binary64

/-! ### Fractions -/

/-- The value of a number as a fraction, if it is finite. -/
def fraction? : Number → Option ℚ
  | int n => some n
  | float (.finite negative units _) => some (Binary64.signedUnits negative units / unitsPerOne)
  | float _ => none

theorem unitsPerOne_ne_zero : (unitsPerOne : ℚ) ≠ 0 :=
  Nat.cast_ne_zero.mpr Binary64.unitsPerOne_pos.ne'

theorem fraction?_float_eq_some_iff {x : Binary64} {q : ℚ} : (float x).fraction? = some q ↔
    x.isFinite = true ∧ (x.extent : ℚ) = q * unitsPerOne := by
  cases x with
  | finite negative units fits =>
    rw [fraction?, Option.some.injEq, div_eq_iff unitsPerOne_ne_zero]
    exact (and_iff_right rfl).symm
  | infinite negative =>
    exact iff_of_false (Option.some_ne_none q).symm fun h => Bool.false_ne_true h.1
  | undefined => exact iff_of_false (Option.some_ne_none q).symm fun h => Bool.false_ne_true h.1

/-- A number in canonical form has the same value. -/
theorem fraction?_ofWhole (x : Binary64) : (ofWhole x).fraction? = (float x).fraction? := by
  unfold ofWhole
  split
  · rename_i n hn
    obtain ⟨negative, k, hk, rfl, rfl⟩ := Binary64.toInt?_eq_some hn
    rw [fraction?, fraction?, Binary64.signedUnits_mul, Int.cast_mul, Int.cast_natCast,
      mul_div_cancel_right₀ _ unitsPerOne_ne_zero]
  · rfl

theorem Binary64.isFinite_of_extent_eq {x y : Binary64} (hx : x ≠ undefined)
    (hy : y.isFinite = true) (h : x.extent = y.extent) : x.isFinite = true := by
  cases y with
  | infinite => cases hy
  | undefined => cases hy
  | finite m v hv =>
    cases x with
    | finite => rfl
    | undefined => exact absurd rfl hx
    | infinite n =>
      cases n with
      | true => exact absurd h (lt_extent_finite m hv).ne
      | false => exact absurd h (extent_finite_lt m hv).ne'

/-- A fraction is kept by rounding exactly if a floating-point number has its value. -/
theorem fraction?_eq_some_iff_of_isNearest {q : ℚ} {x : Binary64} (h : x.IsNearest q) :
    (float x).fraction? = some q ↔ ∃ y, (float y).fraction? = some q := by
  refine ⟨fun hx => ⟨x, hx⟩, fun ⟨y, hy⟩ => ?_⟩
  rw [fraction?_float_eq_some_iff] at hy ⊢
  obtain ⟨hfinite, hvalue⟩ := hy
  have hnear := h.2 y
  rw [hvalue, sub_self, abs_zero] at hnear
  have hextent : (x.extent : ℚ) = q * unitsPerOne :=
    (sub_eq_zero.mp (abs_nonpos_iff.mp hnear)).symm
  have hsame : x.extent = y.extent := by
    have := hextent.trans hvalue.symm
    exact_mod_cast this
  exact ⟨Binary64.isFinite_of_extent_eq h.1 hfinite hsame, hextent⟩

end NoteGraph.Number
