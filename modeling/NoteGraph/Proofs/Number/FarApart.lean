import Mathlib.Tactic.Linarith
import NoteGraph.Number.Numeral
import NoteGraph.Proofs.Number.Nearest

/-!
# Numbers that are far apart

Between a finite number and its double there is another number, so fractions of which one is more
than three times the other are not rounded to the same number. Hence a decimal fraction tells
whether it was read up to its end.
-/

namespace NoteGraph.Number

namespace Binary64

theorem abs_ofRatio (negative : Bool) (num den : ℕ) :
    (ofRatio negative num den).abs = ofRatio false num den := by
  unfold ofRatio ofUnitRatio
  split_ifs <;> rfl

theorem isFinite_abs (x : Binary64) : x.abs.isFinite = x.isFinite := by
  cases x <;> rfl

/-- Above a finite number there is another one that is at most twice as large. -/
theorem exists_extent_le_two_mul {x : Binary64} (hfinite : x.isFinite = true)
    (hpos : 0 < x.extent) : ∃ y : Binary64, x.extent < y.extent ∧ y.extent ≤ 2 * x.extent := by
  cases x with
  | infinite => cases hfinite
  | undefined => cases hfinite
  | finite negative units fits =>
    cases negative with
    | true =>
      rw [extent_finite, signedUnits_true] at hpos
      omega
    | false =>
      rw [extent_finite, signedUnits_false] at hpos ⊢
      obtain ⟨⟨s, e, hs, hunits⟩, hreach⟩ := fits
      by_cases hdouble : 2 * units < unitsOutOfReach
      · have hfits : Fits (2 * units) := ⟨⟨s, e + 1, hs, by
          rw [hunits, Nat.pow_eq, Nat.pow_eq, pow_succ]
          ring⟩, hdouble⟩
        refine ⟨finite false (2 * units) hfits, ?_⟩
        rw [extent_finite, signedUnits_false]
        omega
      · refine ⟨infinite false, ?_⟩
        change (units : ℤ) < (unitsOutOfReach : ℤ) ∧ (unitsOutOfReach : ℤ) ≤ 2 * units
        omega

/-- A fraction from one on is not rounded to less than one, and not to more than its double. -/
theorem IsNearest.extent_bounds {q : ℚ} {x : Binary64} (h : x.IsNearest q) (hq : 1 ≤ q) :
    (0 : ℚ) < x.extent ∧ (x.extent : ℚ) ≤ 2 * (q * unitsPerOne) := by
  have hunit : (0 : ℚ) < unitsPerOne := Nat.cast_pos.mpr unitsPerOne_pos
  have hle : (unitsPerOne : ℚ) ≤ q * unitsPerOne := le_mul_of_one_le_left hunit.le hq
  have hzero := h.2 zero
  have hone := h.2 (ofInt 1)
  rw [extent_zero, Int.cast_zero, sub_zero, abs_of_pos (hunit.trans_le hle)] at hzero
  rw [extent_of_toInt? (toInt?_ofInt (by decide)), Int.cast_mul, Int.cast_one, one_mul,
    Int.cast_natCast, abs_of_nonneg (sub_nonneg.mpr hle)] at hone
  have hbelow := neg_abs_le (q * unitsPerOne - x.extent)
  have habove := le_abs_self (q * unitsPerOne - x.extent)
  constructor <;> linarith

/-- What is rounded to the same finite number as a fraction from one on is at most three times as
large. -/
theorem IsNearest.le_three_mul {q r : ℚ} {x : Binary64} (hq : x.IsNearest q) (hr : x.IsNearest r)
    (hfinite : x.isFinite = true) (hone : 1 ≤ q) : r ≤ 3 * q := by
  have hunit : (0 : ℚ) < unitsPerOne := Nat.cast_pos.mpr unitsPerOne_pos
  obtain ⟨hpos, hdouble⟩ := hq.extent_bounds hone
  obtain ⟨y, hlt, hle⟩ := exists_extent_le_two_mul hfinite (Int.cast_pos.mp hpos)
  have hlt' : (x.extent : ℚ) < y.extent := Int.cast_lt.mpr hlt
  have hle' : (y.extent : ℚ) ≤ 2 * x.extent := by exact_mod_cast hle
  have hnear := hr.2 y
  -- beyond the middle of the two the larger one were nearer
  have hmiddle : r * unitsPerOne ≤ (x.extent + y.extent) / 2 := by
    by_contra hfar
    rw [not_le] at hfar
    rw [abs_of_nonneg (by linarith), le_abs] at hnear
    rcases hnear with h | h <;> linarith
  refine le_of_mul_le_mul_right ?_ hunit
  linarith

end Binary64

/-- A decimal fraction from one on is in reach of its exponent. -/
theorem Decimal.toBinary64_of_le (negative : Bool) {digits places : ℕ} (h : 10 ^ places ≤ digits) :
    Decimal.toBinary64 ⟨negative, digits, -places⟩ = .ofRatio negative digits (10 ^ places) := by
  have hpos : 0 < digits := (Nat.pow_pos (by decide)).trans_le h
  have hlog : 3 * places ≤ digits.log2 := by
    rw [Nat.le_log2 hpos.ne', pow_mul]
    exact (Nat.pow_le_pow_left (by decide) _).trans h
  rw [toBinary64]
  dsimp only
  rw [if_neg hpos.ne', if_neg (by omega), if_neg (by omega)]
  simp

/-- A decimal fraction that is more than three times as large as a whole number in reach is not read
as the same number. -/
theorem Decimal.toBinary64_ne (negative : Bool) {whole digits places : ℕ} (hpos : 0 < whole)
    (hfar : 3 * whole * 10 ^ places < digits)
    (hfinite : (toBinary64 ⟨negative, whole, 0⟩).isFinite = true) :
    toBinary64 ⟨negative, whole, 0⟩ ≠ toBinary64 ⟨negative, digits, -places⟩ := by
  have hscale : 0 < 10 ^ places := Nat.pow_pos (by decide)
  have hdigits : 10 ^ places ≤ digits := by
    calc 10 ^ places ≤ 3 * whole * 10 ^ places := Nat.le_mul_of_pos_left _ (by omega)
      _ ≤ digits := hfar.le
  have hwhole := @toBinary64_of_le negative whole 0 hpos
  rw [Int.natCast_zero, neg_zero, pow_zero] at hwhole
  rw [hwhole] at hfinite ⊢
  rw [toBinary64_of_le negative hdigits]
  intro heq
  have habs : Binary64.ofRatio false whole 1 = .ofRatio false digits (10 ^ places) := by
    rw [← Binary64.abs_ofRatio negative, heq, Binary64.abs_ofRatio]
  have hnear := Binary64.isNearest_ofRatio whole Nat.one_pos
  have hnear' := Binary64.isNearest_ofRatio digits hscale
  rw [← habs] at hnear'
  rw [← Binary64.isFinite_abs, Binary64.abs_ofRatio] at hfinite
  have hle := hnear.le_three_mul hnear' hfinite (by
    rw [Nat.cast_one, div_one]
    exact_mod_cast hpos)
  rw [div_le_iff₀ (Nat.cast_pos.mpr hscale), Nat.cast_one, div_one] at hle
  exact absurd hfar (not_lt.mpr (by exact_mod_cast hle))
end NoteGraph.Number
