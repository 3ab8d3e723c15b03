import Mathlib.Algebra.Group.Subgroup.ZPowers.Basic
import Mathlib.Algebra.Order.Field.Rat
import Mathlib.Algebra.Order.Field.Power
import Mathlib.Tactic.NormNum
import Mathlib.Tactic.Ring
import Mathlib.Tactic.FieldSimp
import NoteGraph.Number.Quantity

/-!
# Exact quantities

Fractions are quantities whose sums and differences are exact. They are rounded to a number
of decimals by the rule that floating-point numbers follow, with no limit of bits. Main
statement: what is a multiple of the last decimal is not changed by rounding.
-/

namespace NoteGraph

namespace Exact

open Number

/-- The value of the last of a number of decimals. -/
def lastDecimal (decimals : ℤ) : ℚ := 10 ^ (-decimals)

/-- The fractions with no more than a number of decimals. -/
def multiples (decimals : ℤ) : AddSubgroup ℚ := AddSubgroup.zmultiples (lastDecimal decimals)

/-- The nearest fraction with a number of decimals, of two equally near the one with an even
last decimal. -/
def roundTo (decimals : ℤ) (x : ℚ) : ℚ :=
  let scaled := |x| / lastDecimal decimals
  let rounded := roundDiv scaled.num.natAbs scaled.den * lastDecimal decimals
  if x < 0 then -rounded else rounded

theorem lastDecimal_pos (decimals : ℤ) : 0 < lastDecimal decimals := by
  unfold lastDecimal
  positivity

theorem mem_multiples {decimals : ℤ} {x : ℚ} :
    x ∈ multiples decimals ↔ ∃ k : ℤ, x = k * lastDecimal decimals := by
  simp only [multiples, AddSubgroup.mem_zmultiples_iff, zsmul_eq_mul]
  exact ⟨fun ⟨k, h⟩ => ⟨k, h.symm⟩, fun ⟨k, h⟩ => ⟨k, h.symm⟩⟩

/-- Rounding leaves multiples of the last decimal alone. -/
theorem roundTo_of_mem {decimals : ℤ} {x : ℚ} (h : x ∈ multiples decimals) :
    roundTo decimals x = x := by
  obtain ⟨k, rfl⟩ := mem_multiples.mp h
  have hpos := lastDecimal_pos decimals
  have hscaled : |k * lastDecimal decimals| / lastDecimal decimals = ((k.natAbs : ℤ) : ℚ) := by
    rw [abs_mul, abs_of_pos hpos, mul_div_cancel_right₀ _ hpos.ne', Int.natCast_natAbs,
      Int.cast_abs]
  have habs : ((k.natAbs : ℕ) : ℚ) = |(k : ℚ)| := by
    rw [← Int.cast_natCast, Int.natCast_natAbs, Int.cast_abs]
  simp only [roundTo, hscaled, Rat.num_intCast, Rat.den_intCast, Int.natAbs_natCast, roundDiv_one,
    habs]
  by_cases hk : k < 0
  · have hneg : (k : ℚ) < 0 := by exact_mod_cast hk
    rw [if_pos (mul_neg_of_neg_of_pos hneg hpos), abs_of_neg hneg]
    ring
  · have hge : (0 : ℚ) ≤ k := by exact_mod_cast not_lt.mp hk
    rw [if_neg (not_lt.mpr (mul_nonneg hge hpos.le)), abs_of_nonneg hge]

end Exact

instance : Quantity ℚ where
  atMost a b := decide (a ≤ b)
  below a b := decide (a < b)
  magnitude x := |x|
  roundTo := Exact.roundTo
  count x := x
  slack := Exact.lastDecimal 12
  total amounts := amounts.sum

end NoteGraph
