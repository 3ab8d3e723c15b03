import Mathlib.Algebra.Order.Ring.Int
import NoteGraph.Number.Quantity
import NoteGraph.Proofs.Number.Rounding

/-!
# Signs and differences

What floating-point arithmetic keeps of the order of numbers: sums of what is not
negative are not negative, and a difference has the sign of the exact difference and a
magnitude that grows with it.
-/

namespace NoteGraph.Number

namespace Binary64

/-! ### Rounded whole numbers of units -/

theorem ofUnitRatio_of_lt (negative : Bool) {n : ℕ} (h : roundUnits n 1 < unitsOutOfReach) :
    ofUnitRatio negative n 1 = .finite negative (roundUnits n 1) (fits_roundUnits h) := by
  simp [ofUnitRatio, h]

theorem ofUnitRatio_of_le (negative : Bool) {n : ℕ} (h : unitsOutOfReach ≤ roundUnits n 1) :
    ofUnitRatio negative n 1 = .infinite negative := by
  simp [ofUnitRatio, Nat.not_lt.mpr h]

theorem ofUnitRatio_of_fits (negative : Bool) {n : ℕ} (h : Fits n) :
    ofUnitRatio negative n 1 = .finite negative n h := by
  have hn := roundUnits_of_fits h
  rw [ofUnitRatio_of_lt negative (by rw [hn]; exact h.2)]
  simp only [hn]

theorem ofRatio_zero (negative : Bool) (den : ℕ) :
    ofRatio negative 0 den = .finite negative 0 fits_zero := by
  simp [ofRatio, ofUnitRatio, roundUnits_zero, fits_zero.2]

theorem zero_def : (0 : Binary64) = zero := rfl

theorem zero_eq : zero = .finite false 0 fits_zero := ofRatio_zero false 1

theorem ofUnits_zero : ofUnits 0 = zero := by
  rw [zero_eq, ← ofUnitRatio_of_fits false fits_zero]
  rfl

theorem ofUnits_natCast (n : ℕ) : ofUnits n = ofUnitRatio false n 1 := rfl

theorem abs_ofUnits (d : ℤ) : (ofUnits d).abs = ofUnitRatio false d.natAbs 1 := by
  unfold ofUnits ofUnitRatio
  split <;> rfl

/-! ### Sums and differences of finite numbers -/

theorem finite_add_finite (n m : Bool) {u v : ℕ} (hu : Fits u) (hv : Fits v) :
    finite n u hu + finite m v hv =
      if signedUnits n u + signedUnits m v = 0 then if n && m then finite n u hu else zero
      else ofUnits (signedUnits n u + signedUnits m v) := rfl

@[simp] theorem signedUnits_true (u : ℕ) : signedUnits true u = -u := rfl

@[simp] theorem signedUnits_false (u : ℕ) : signedUnits false u = u := rfl

theorem signedUnits_not (n : Bool) (u : ℕ) : signedUnits (!n) u = -signedUnits n u := by
  cases n <;> simp [signedUnits_true, signedUnits_false]

@[simp] theorem natAbs_signedUnits (n : Bool) (u : ℕ) : (signedUnits n u).natAbs = u := by
  cases n with
  | false => rw [signedUnits_false, Int.natAbs_natCast]
  | true => rw [signedUnits_true, Int.natAbs_neg, Int.natAbs_natCast]

theorem finite_sub_finite (n m : Bool) {u v : ℕ} (hu : Fits u) (hv : Fits v) :
    finite n u hu - finite m v hv =
      if signedUnits n u - signedUnits m v = 0 then if n && !m then finite n u hu else zero
      else ofUnits (signedUnits n u - signedUnits m v) := by
  rw [sub_eq_add_neg, ← signedUnits_not]
  exact finite_add_finite n (!m) hu hv

theorem sub_finite {m : Bool} {u v : ℕ} (hu : Fits u) (hv : Fits v) :
    finite false u hu - finite m v hv = ofUnits (u - signedUnits m v) := by
  rw [finite_sub_finite]
  split_ifs with h0 hs
  · exact absurd hs Bool.false_ne_true
  · exact ofUnits_zero.symm.trans (congrArg ofUnits h0.symm)
  · rfl

/-- The sign of a zero does not matter to the magnitude of a difference. -/
theorem abs_sub_finite (n m : Bool) {u v : ℕ} (hu : Fits u) (hv : Fits v) :
    (finite n u hu - finite m v hv).abs =
      ofUnitRatio false (signedUnits n u - signedUnits m v).natAbs 1 := by
  rw [← abs_ofUnits, finite_sub_finite]
  split_ifs with h0 hs
  · -- two negative numbers with the sum zero are zeros
    rw [Bool.and_eq_true_iff, Bool.not_eq_true'] at hs
    obtain ⟨rfl, rfl⟩ := hs
    have hu0 : u = 0 := by rw [signedUnits_true, signedUnits_false] at h0; omega
    subst hu0
    rw [h0, ofUnits_zero, zero_eq]
    rfl
  · rw [h0, ofUnits_zero]
  · rfl

/-! ### Comparing -/

theorem le_finite {n m : Bool} {u v : ℕ} (hu : Fits u) (hv : Fits v) :
    le (finite n u hu) (finite m v hv) = true ↔ signedUnits n u ≤ signedUnits m v := by
  simp only [le, compare?, Bool.or_eq_true, beq_iff_eq, Option.some.injEq, compare_lt_iff_lt,
    compare_eq_iff_eq]
  omega

theorem lt_finite {n m : Bool} {u v : ℕ} (hu : Fits u) (hv : Fits v) :
    lt (finite n u hu) (finite m v hv) = true ↔ signedUnits n u < signedUnits m v := by
  simp [lt, compare?, compare_lt_iff_lt]

theorem ofUnits_le_finite {d : ℤ} {v : ℕ} (hv : Fits v) (h : d ≤ v) :
    le (ofUnits d) (finite false v hv) = true := by
  rcases le_or_gt 0 d with hd | hd
  · obtain ⟨n, rfl⟩ := Int.eq_ofNat_of_zero_le hd
    have hround : roundUnits n 1 ≤ v := roundUnits_le_of_le_fits (by omega) hv
    rw [ofUnits_natCast, ofUnitRatio_of_lt false (hround.trans_lt hv.2), le_finite,
      signedUnits_false, signedUnits_false]
    exact_mod_cast hround
  · rw [ofUnits, decide_eq_true hd]
    rcases Nat.lt_or_ge (roundUnits d.natAbs 1) unitsOutOfReach with hr | hr
    · rw [ofUnitRatio_of_lt true hr, le_finite, signedUnits_true, signedUnits_false]
      omega
    · rw [ofUnitRatio_of_le true hr]
      rfl

theorem lt_ofUnitRatio {n v : ℕ} (hv : Fits v) :
    lt (ofUnitRatio false n 1) (finite false v hv) = true ↔ roundUnits n 1 < v := by
  rcases Nat.lt_or_ge (roundUnits n 1) unitsOutOfReach with h | h
  · rw [ofUnitRatio_of_lt false h, lt_finite]
    simp [signedUnits]
  · rw [ofUnitRatio_of_le false h]
    have hreach := hv.2
    constructor
    · intro hlt; simp [lt, compare?] at hlt
    · omega

/-! ### What is not negative -/

/-- Zero or more, maybe infinite. -/
inductive NonNeg : Binary64 → Prop where
  | finite {negative : Bool} {units : ℕ} {fits : Fits units} :
    0 ≤ signedUnits negative units → NonNeg (.finite negative units fits)
  | infinite : NonNeg (.infinite false)

theorem nonNeg_finite {n : Bool} {u : ℕ} {hu : Fits u} :
    NonNeg (finite n u hu) ↔ 0 ≤ signedUnits n u :=
  ⟨fun h => by cases h; assumption, .finite⟩

theorem nonNeg_infinite {n : Bool} : NonNeg (infinite n) ↔ n = false :=
  ⟨fun h => by cases h; rfl, fun h => h ▸ .infinite⟩

theorem nonNeg_zero : NonNeg zero := by
  rw [zero_eq, nonNeg_finite]
  decide

theorem nonNeg_ofUnitRatio_false (n : ℕ) : NonNeg (ofUnitRatio false n 1) := by
  rcases Nat.lt_or_ge (roundUnits n 1) unitsOutOfReach with h | h
  · rw [ofUnitRatio_of_lt false h]
    exact nonNeg_finite.mpr (Int.natCast_nonneg _)
  · rw [ofUnitRatio_of_le false h]
    exact nonNeg_infinite.mpr rfl

theorem nonNeg_ofUnits {d : ℤ} : NonNeg (ofUnits d) ↔ 0 ≤ d := by
  constructor
  · intro h
    by_contra hd
    have hpos : 0 < roundUnits d.natAbs 1 := roundUnits_pos (by omega)
    rw [ofUnits, decide_eq_true (not_le.mp hd)] at h
    rcases Nat.lt_or_ge (roundUnits d.natAbs 1) unitsOutOfReach with hr | hr
    · rw [ofUnitRatio_of_lt true hr, nonNeg_finite, signedUnits_true] at h
      omega
    · rw [ofUnitRatio_of_le true hr, nonNeg_infinite] at h
      exact Bool.noConfusion h
  · intro h
    have hneg : decide (d < 0) = false := by simpa using h
    rw [ofUnits, hneg]
    exact nonNeg_ofUnitRatio_false _

theorem nonNeg_add {x y : Binary64} (hx : NonNeg x) (hy : NonNeg y) : NonNeg (x + y) := by
  cases hx with
  | infinite =>
    cases hy with
    | infinite => exact .infinite
    | finite => exact .infinite
  | finite hx =>
    cases hy with
    | infinite => exact .infinite
    | finite hy =>
      rw [finite_add_finite]
      split_ifs
      · exact .finite hx
      · exact nonNeg_zero
      · exact nonNeg_ofUnits.mpr (add_nonneg hx hy)

theorem add_infinite {x : Binary64} (hx : NonNeg x) : x + infinite false = infinite false := by
  cases hx with
  | finite => rfl
  | infinite => rfl

theorem nonNeg_sub_finite {n m : Bool} {u v : ℕ} (hu : Fits u) (hv : Fits v)
    (h : signedUnits m v ≤ signedUnits n u) : NonNeg (finite n u hu - finite m v hv) := by
  rw [finite_sub_finite]
  split_ifs with h0 hs
  · rw [Bool.and_eq_true_iff, Bool.not_eq_true'] at hs
    obtain ⟨rfl, rfl⟩ := hs
    rw [signedUnits_true, signedUnits_false] at h0
    rw [nonNeg_finite, signedUnits_true]
    omega
  · exact nonNeg_zero
  · exact nonNeg_ofUnits.mpr (by omega)

/-! ### Whole numbers -/

theorem unitsPerOne_pos : 0 < unitsPerOne := by decide +kernel

theorem ofInt_eq_ofUnits (n : ℤ) : ofInt n = ofUnits (n * unitsPerOne) := by
  have hU : (0 : ℤ) < unitsPerOne := by exact_mod_cast unitsPerOne_pos
  have hsign : decide (n * unitsPerOne < 0) = decide (n < 0) :=
    decide_eq_decide.mpr (by rw [mul_neg_iff]; omega)
  rw [ofInt, ofRatio, ofUnits, hsign, Int.natAbs_mul, Int.natAbs_natCast]

theorem nonNeg_ofInt {n : ℤ} : NonNeg (ofInt n) ↔ 0 ≤ n := by
  have hU : (0 : ℤ) < unitsPerOne := by exact_mod_cast unitsPerOne_pos
  rw [ofInt_eq_ofUnits, nonNeg_ofUnits]
  exact mul_nonneg_iff_of_pos_right hU

/-- A number of units that makes a whole number. -/
theorem toInt?_eq_some {x : Binary64} {n : ℤ} (h : x.toInt? = some n) :
    ∃ negative k hk, x = finite negative (k * unitsPerOne) hk ∧ n = signedUnits negative k := by
  cases x with
  | infinite => exact absurd h (by simp [toInt?])
  | undefined => exact absurd h (by simp [toInt?])
  | finite m u hu =>
    simp only [toInt?] at h
    split_ifs at h with hmod
    have hdvd : u / unitsPerOne * unitsPerOne = u :=
      Nat.div_mul_cancel (Nat.dvd_of_mod_eq_zero hmod)
    refine ⟨m, u / unitsPerOne, hdvd.symm ▸ hu, ?_, (Option.some.inj h).symm⟩
    simp only [hdvd]

end Binary64

/-! ### Numbers of both kinds -/

theorem isTooLarge_eq_false {n : Number} (h : n.toBinary64.isFinite = true) :
    n.isTooLarge = false := by
  cases n with
  | int n => rw [isTooLarge, ← toBinary64, h, Bool.not_true]
  | float x => rfl

/-- The tolerance in units. -/
def toleranceUnits : ℕ := 4951760157141521 * Nat.pow 2 982

theorem toleranceUnits_bounds :
    0 < toleranceUnits ∧ 2 * toleranceUnits < unitsPerOne ∧ toleranceUnits < unitsOutOfReach := by
  decide +kernel

theorem fits_toleranceUnits : Fits toleranceUnits :=
  ⟨⟨4951760157141521, 982, by decide, rfl⟩, toleranceUnits_bounds.2.2⟩

theorem tolerance_eq : tolerance = .float (.finite false toleranceUnits fits_toleranceUnits) := by
  decide +kernel

theorem toleranceUnits_pos : 0 < toleranceUnits := toleranceUnits_bounds.1

theorem two_mul_toleranceUnits_lt : 2 * toleranceUnits < unitsPerOne := toleranceUnits_bounds.2.1

theorem toleranceUnits_lt : toleranceUnits < unitsPerOne :=
  (Nat.le_mul_of_pos_left toleranceUnits Nat.two_pos).trans_lt two_mul_toleranceUnits_lt

-- the number is too large to be looked at in comparisons of terms
attribute [irreducible] toleranceUnits

theorem le_zero_iff {c : Number} : Number.le 0 c = true ↔ c.toBinary64.NonNeg := by
  change (lt (.int 0) c || same (.int 0) c) = true ↔ _
  cases c with
  | int n =>
    simp only [toBinary64, Binary64.nonNeg_ofInt, lt, same, compare?, Bool.or_eq_true, beq_iff_eq,
      Option.some.injEq, compare_lt_iff_lt, compare_eq_iff_eq]
    omega
  | float x =>
    cases x with
    | finite m u hu =>
      simp only [toBinary64, Binary64.nonNeg_finite, lt, same, compare?, compare?.compareInt,
        Bool.or_eq_true, beq_iff_eq, Option.some.injEq, compare_lt_iff_lt, compare_eq_iff_eq]
      omega
    | infinite m =>
      cases m <;> simp [toBinary64, Binary64.nonNeg_infinite, lt, same, compare?,
        compare?.compareInt]
    | undefined =>
      constructor
      · intro h; exact absurd h (by simp [lt, same, compare?, compare?.compareInt])
      · intro h; cases h

theorem zero_lt_iff {n : Bool} {u : ℕ} {hu : Fits u} :
    Number.lt 0 (.float (.finite n u hu)) = true ↔ 0 < Binary64.signedUnits n u := by
  change lt (.int 0) (.float (.finite n u hu)) = true ↔ _
  simp only [lt, compare?, compare?.compareInt, beq_iff_eq, Option.some.injEq, compare_lt_iff_lt]
  omega

theorem nonNeg_of_zero_lt {x : Binary64} (h : Number.lt 0 (.float x) = true) : x.NonNeg := by
  refine (le_zero_iff (c := .float x)).mp ?_
  rw [Number.le, h, Bool.true_or]

/-- A finite number above zero is a number of units without a sign. -/
theorem exists_units_of_zero_lt {x : Binary64} (hfinite : x.isFinite = true)
    (h : Number.lt 0 (.float x) = true) : ∃ u hu, x = .finite false u hu := by
  cases x with
  | infinite => cases hfinite
  | undefined => cases hfinite
  | finite n u hu =>
    cases n with
    | false => exact ⟨u, hu, rfl⟩
    | true =>
      rw [zero_lt_iff, Binary64.signedUnits_true] at h
      omega

theorem eq_infinite_of_zero_lt {x : Binary64} (h : Number.lt 0 (.float x) = true)
    (hinfinite : x.isFinite = false) : x = .infinite false := by
  cases nonNeg_of_zero_lt h with
  | finite => cases hinfinite
  | infinite => rfl

theorem zero_lt_ofUnits {d : ℤ} (h : 0 < d) :
    Number.lt 0 (.float (Binary64.ofUnits d)) = true := by
  obtain ⟨n, rfl⟩ := Int.eq_ofNat_of_zero_le h.le
  rw [Binary64.ofUnits_natCast]
  rcases Nat.lt_or_ge (Binary64.roundUnits n 1) unitsOutOfReach with hr | hr
  · rw [Binary64.ofUnitRatio_of_lt false hr, zero_lt_iff, Binary64.signedUnits_false]
    exact_mod_cast Binary64.roundUnits_pos (by omega)
  · rw [Binary64.ofUnitRatio_of_le false hr]
    rfl

/-- A number above zero does not round to zero. -/
theorem zero_lt_toBinary64 {c : Number} (h : Number.lt 0 c = true) :
    Number.lt 0 (.float c.toBinary64) = true := by
  cases c with
  | float x => exact h
  | int n =>
    change Number.lt (.int 0) (.int n) = true at h
    simp only [lt, compare?, beq_iff_eq, Option.some.injEq, compare_lt_iff_lt] at h
    rw [toBinary64, Binary64.ofInt_eq_ofUnits]
    exact zero_lt_ofUnits (Int.mul_pos h (Int.natCast_pos.mpr Binary64.unitsPerOne_pos))

theorem zero_lt_add {x y : Binary64} (hx : Number.lt 0 (.float x) = true)
    (hy : Number.lt 0 (.float y) = true) : Number.lt 0 (.float (x + y)) = true := by
  cases x with
  | undefined => cases hx
  | infinite n =>
    cases nonNeg_of_zero_lt hx
    cases y with
    | undefined => cases hy
    | infinite m =>
      cases nonNeg_of_zero_lt hy
      rfl
    | finite => rfl
  | finite n u hu =>
    cases y with
    | undefined => cases hy
    | infinite m =>
      cases nonNeg_of_zero_lt hy
      rfl
    | finite m v hv =>
      have hsum := add_pos (zero_lt_iff.mp hx) (zero_lt_iff.mp hy)
      rw [Binary64.finite_add_finite, if_neg hsum.ne']
      exact zero_lt_ofUnits hsum

/-- A sum of numbers above zero is above zero. -/
theorem zero_lt_foldl_add {rest : List Number} :
    ∀ {first : Number}, (∀ w ∈ first :: rest, Number.lt 0 (.float w.toBinary64) = true) →
      Number.lt 0 (.float (rest.foldl (· + ·) first).toBinary64) = true := by
  induction rest with
  | nil => exact fun h => h _ List.mem_cons_self
  | cons second more ih =>
    intro first h
    refine @ih (first + second) fun w hmem => ?_
    rcases List.mem_cons.mp hmem with rfl | hmem
    · exact zero_lt_add (h first List.mem_cons_self)
        (h second (List.mem_cons_of_mem _ List.mem_cons_self))
    · exact h w (List.mem_cons_of_mem _ (List.mem_cons_of_mem _ hmem))

/-- A number above zero is what zero and it add up to. -/
theorem zero_add_float {x : Binary64} (h : Number.lt 0 (.float x) = true) :
    (0 : Number) + .float x = .float x := by
  change Number.float (Binary64.zero + x) = .float x
  rw [Binary64.zero_eq]
  congr 1
  cases x with
  | undefined => cases h
  | infinite n => rfl
  | finite n u hu =>
    have hpos := zero_lt_iff.mp h
    cases n with
    | true =>
      rw [Binary64.signedUnits_true] at hpos
      omega
    | false =>
      rw [Binary64.signedUnits_false] at hpos
      rw [Binary64.finite_add_finite, Binary64.signedUnits_false, Binary64.signedUnits_false,
        Nat.cast_zero, zero_add, if_neg hpos.ne', Binary64.ofUnits_natCast,
        Binary64.ofUnitRatio_of_fits]

theorem lt_zero_iff {c : Number} (h : c.isFinite = true) :
    Number.lt c 0 = false ↔ c.toBinary64.NonNeg := by
  change lt c (.int 0) = false ↔ _
  cases c with
  | int n =>
    simp only [toBinary64, Binary64.nonNeg_ofInt, lt, compare?, beq_eq_false_iff_ne, ne_eq,
      Option.some.injEq, compare_lt_iff_lt, not_lt]
  | float x =>
    cases x with
    | finite m u hu =>
      simp only [toBinary64, Binary64.nonNeg_finite, lt, compare?, compare?.compareInt,
        Option.map_some, Ordering.swap_eq_lt, compare_gt_iff_gt, beq_eq_false_iff_ne, ne_eq,
        Option.some.injEq]
      omega
    | infinite => cases h
    | undefined => cases h

/-- A finite number is above zero, or it is at most zero. -/
theorem below_zero_eq_false_iff {c : Number} (h : c.toBinary64.isFinite = true) :
    Quantity.below 0 c = false ↔ Quantity.atMost c 0 = true := by
  have hzero : Binary64.ofInt 0 = .finite false 0 Binary64.fits_zero := Binary64.zero_eq
  change Binary64.lt (.ofInt 0) c.toBinary64 = false ↔ Binary64.le c.toBinary64 (.ofInt 0) = true
  rw [hzero, ← Bool.not_eq_true]
  cases hx : c.toBinary64 with
  | finite n u hu => rw [Binary64.lt_finite, Binary64.le_finite, not_lt]
  | infinite n => rw [hx] at h; cases h
  | undefined => rw [hx] at h; cases h

/-- A count keeps the sign of what it counts. -/
theorem nonNeg_ofWhole {x : Binary64} : (ofWhole x).toBinary64.NonNeg ↔ x.NonNeg := by
  unfold ofWhole
  split
  · rename_i n hn
    obtain ⟨m, k, hk, rfl, rfl⟩ := Binary64.toInt?_eq_some hn
    have hU := Binary64.unitsPerOne_pos
    rw [toBinary64, Binary64.nonNeg_ofInt, Binary64.nonNeg_finite]
    cases m
    · exact iff_of_true (Int.natCast_nonneg _) (Int.natCast_nonneg _)
    · have hzero : k * unitsPerOne = 0 ↔ k = 0 := by
        rw [Nat.mul_eq_zero, or_iff_left hU.ne']
      rw [Binary64.signedUnits_true, Binary64.signedUnits_true]
      omega
  · exact Iff.rfl

theorem isFinite_ofWhole {x : Binary64} (h : x.isFinite = true) :
    (ofWhole x).toBinary64.isFinite = true := by
  unfold ofWhole
  split
  · rename_i n hn
    obtain ⟨m, k, hk, rfl, rfl⟩ := Binary64.toInt?_eq_some hn
    have hunits : (Binary64.signedUnits m k * unitsPerOne : ℤ).natAbs = k * unitsPerOne := by
      rw [Int.natAbs_mul, Int.natAbs_natCast, Binary64.natAbs_signedUnits]
    rw [toBinary64, Binary64.ofInt_eq_ofUnits, Binary64.ofUnits, hunits,
      Binary64.ofUnitRatio_of_fits _ hk]
    rfl
  · exact h

theorem toBinary64_ofWhole {c : ℕ} (hc : Fits c) :
    (ofWhole (.finite false c hc)).toBinary64 = .finite false c hc := by
  unfold ofWhole
  split
  · rename_i n hn
    obtain ⟨m, k, hk, hfinite, rfl⟩ := Binary64.toInt?_eq_some hn
    rw [Binary64.finite.injEq] at hfinite
    rw [toBinary64, Binary64.ofInt_eq_ofUnits, ← hfinite.1, Binary64.signedUnits_false,
      ← Int.natCast_mul, ← hfinite.2, Binary64.ofUnits_natCast, Binary64.ofUnitRatio_of_fits]
  · rfl

end NoteGraph.Number
