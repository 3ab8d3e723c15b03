import NoteGraph.Proofs.Number.Order

/-!
# Whole numbers are exact

Up to `2 ^ 53` every whole number is a floating-point number, so sums and differences of
whole numbers are exact as long as they stay below it. The tolerance is too small to
make two whole numbers equal.
-/

namespace NoteGraph.Number

/-- A number without a fraction. -/
def IsWhole : Number → Prop
  | int _ => True
  | float x => x.toInt?.isSome = true

instance : DecidablePred IsWhole := fun n => by
  cases n with
  | int => exact instDecidableTrue
  | float x => exact instDecidableEqBool _ _

/-- The value of a number without a fraction. -/
def value : Number → ℤ
  | int n => n
  | float x => x.toInt?.getD 0

namespace Binary64

theorem exists_unitsPerOne_eq : ∃ e, unitsPerOne = 2 ^ e := ⟨_, Nat.pow_eq⟩

theorem fits_mul_unitsPerOne {k : ℕ} (h : k ≤ 2 ^ 53) : Fits (k * unitsPerOne) := by
  obtain ⟨e, he⟩ := exists_unitsPerOne_eq
  refine ⟨⟨k, e, h, by rw [he, Nat.pow_eq]⟩, ?_⟩
  calc k * unitsPerOne ≤ 2 ^ 53 * unitsPerOne := Nat.mul_le_mul_right _ h
    _ < unitsOutOfReach := by decide +kernel

theorem toInt?_finite (negative : Bool) {k : ℕ} (hk : Fits (k * unitsPerOne)) :
    (finite negative (k * unitsPerOne) hk).toInt? = some (signedUnits negative k) := by
  rw [toInt?, if_pos (Nat.mul_mod_left _ _), Nat.mul_div_cancel _ unitsPerOne_pos]

theorem signedUnits_mul (negative : Bool) (k : ℕ) :
    signedUnits negative (k * unitsPerOne) = signedUnits negative k * unitsPerOne := by
  cases negative with
  | false => exact Int.natCast_mul _ _
  | true => rw [signedUnits_true, signedUnits_true, Int.natCast_mul, Int.neg_mul]

theorem toInt?_ofInt {n : ℤ} (h : n.natAbs ≤ 2 ^ 53) : (ofInt n).toInt? = some n := by
  rw [ofInt, ofRatio, ofUnitRatio_of_fits _ (fits_mul_unitsPerOne h), toInt?_finite]
  by_cases hn : n < 0
  · rw [decide_eq_true hn, signedUnits_true]
    congr 1
    omega
  · rw [decide_eq_false hn, signedUnits_false]
    congr 1
    omega

theorem toInt?_zero : toInt? 0 = some 0 := by
  rw [zero_def, zero, toInt?_ofInt (by decide)]

/-! ### Sums and differences -/

theorem toInt?_add {x y : Binary64} {a b : ℤ} (hx : x.toInt? = some a) (hy : y.toInt? = some b)
    (h : (a + b).natAbs ≤ 2 ^ 53) : (x + y).toInt? = some (a + b) := by
  have hzeros : ∀ u v : ℕ, -(u : ℤ) + -(v : ℤ) = 0 → -(u : ℤ) = 0 := by omega
  obtain ⟨n, k, hk, rfl, rfl⟩ := toInt?_eq_some hx
  obtain ⟨m, l, hl, rfl, rfl⟩ := toInt?_eq_some hy
  rw [finite_add_finite, signedUnits_mul, signedUnits_mul, ← Int.add_mul, ← ofInt_eq_ofUnits]
  have hU : (unitsPerOne : ℤ) ≠ 0 := by exact_mod_cast unitsPerOne_pos.ne'
  split_ifs with hzero hsign
  · -- a sum of two negative numbers is zero if both are
    obtain ⟨rfl, rfl⟩ := Bool.and_eq_true_iff.mp hsign
    have hsum := (Int.mul_eq_zero.mp hzero).resolve_right hU
    rw [signedUnits_true, signedUnits_true] at hsum ⊢
    rw [toInt?_finite, signedUnits_true, hsum, hzeros k l hsum]
  · rw [(Int.mul_eq_zero.mp hzero).resolve_right hU]
    exact toInt?_ofInt (by decide)
  · exact toInt?_ofInt h

theorem toInt?_neg {x : Binary64} {a : ℤ} (hx : x.toInt? = some a) : (-x).toInt? = some (-a) := by
  obtain ⟨n, k, hk, rfl, rfl⟩ := toInt?_eq_some hx
  change (finite (!n) _ hk).toInt? = _
  rw [toInt?_finite, signedUnits_not]

theorem toInt?_sub {x y : Binary64} {a b : ℤ} (hx : x.toInt? = some a) (hy : y.toInt? = some b)
    (h : (a - b).natAbs ≤ 2 ^ 53) : (x - y).toInt? = some (a - b) := by
  rw [Int.sub_eq_add_neg] at h ⊢
  exact toInt?_add hx (toInt?_neg hy) h

/-- Rounding makes no fractions. -/
theorem unitsPerOne_dvd_roundUnits (n : ℕ) : unitsPerOne ∣ roundUnits (n * unitsPerOne) 1 := by
  obtain ⟨e, he⟩ := exists_unitsPerOne_eq
  exact dvd_roundUnits n he

theorem isSome_toInt?_ofInt {n : ℤ} (h : (ofInt n).isFinite = true) :
    (ofInt n).toInt?.isSome = true := by
  have hdvd := Nat.mod_eq_zero_of_dvd (unitsPerOne_dvd_roundUnits n.natAbs)
  rw [ofInt, ofRatio] at h ⊢
  rcases Nat.lt_or_ge (roundUnits (n.natAbs * unitsPerOne) 1) unitsOutOfReach with hr | hr
  · rw [ofUnitRatio_of_lt _ hr, toInt?, if_pos hdvd]
    rfl
  · rw [ofUnitRatio_of_le _ hr] at h
    cases h

/-! ### Comparing up to a tolerance -/

theorem le_of_two_mul_le {u t k l r : ℕ} (ht : 2 * t < u) (hround : 2 * (l * u - t) ≤ 2 * r + u)
    (h : r ≤ k * u) : l ≤ k := by
  by_contra hlt
  have hmul : (k + 1) * u ≤ l * u := Nat.mul_le_mul_right u (by omega)
  rw [Nat.add_mul] at hmul
  omega

theorem eq_zero_of_mul_lt {u k : ℕ} (h : k * u < u) : k = 0 := by
  by_contra hk
  have := Nat.le_mul_of_pos_left u (Nat.pos_of_ne_zero hk)
  omega

theorem mul_sub_ne_zero {u t : ℕ} (k : ℕ) (hpos : 0 < t) (ht : 2 * t < u) :
    (k : ℤ) * u - t ≠ 0 := by
  intro h
  have heq : k * u = t := by exact_mod_cast sub_eq_zero.mp h
  have hk : k = 0 := eq_zero_of_mul_lt (u := u) (by omega)
  rw [hk, Nat.zero_mul] at heq
  omega

/-- A whole number less a tolerance rounds to more than the whole number before it. -/
theorem roundUnits_sub_le_iff {k l t : ℕ} (hl : l ≤ 2 ^ 53) (hpos : 0 < t)
    (ht : 2 * t < unitsPerOne) : roundUnits (l * unitsPerOne - t) 1 ≤ k * unitsPerOne ↔ l ≤ k := by
  constructor
  · intro h
    obtain ⟨e, he⟩ := exists_unitsPerOne_eq
    exact le_of_two_mul_le ht (two_mul_sub_le_roundUnits he hl hpos) h
  · intro h
    exact (roundUnits_le_of_le_fits (Nat.sub_le _ _) (fits_mul_unitsPerOne hl)).trans
      (Nat.mul_le_mul_right _ h)

end Binary64

/-! ### Values -/

theorem value_of_toInt? {x : Binary64} {a : ℤ} (h : x.toInt? = some a) :
    (Number.float x).value = a := by
  rw [value, h, Option.getD_some]

theorem toInt?_of_isWhole {n : Number} (h : n.IsWhole) (hn : n.value.natAbs ≤ 2 ^ 53) :
    n.toBinary64.toInt? = some n.value := by
  cases n with
  | int n => exact Binary64.toInt?_ofInt hn
  | float x =>
    obtain ⟨a, ha⟩ := Option.isSome_iff_exists.mp h
    rw [value_of_toInt? ha, toBinary64, ha]

theorem ofWhole_of_toInt? {x : Binary64} {a : ℤ} (h : x.toInt? = some a) :
    ofWhole x = .int a := by
  rw [ofWhole, h]

theorem nonNeg_of_toInt? {x : Binary64} {a : ℤ} (h : x.toInt? = some a) :
    x.NonNeg ↔ 0 ≤ a := by
  rw [← nonNeg_ofWhole, ofWhole_of_toInt? h, toBinary64, Binary64.nonNeg_ofInt]

end NoteGraph.Number
