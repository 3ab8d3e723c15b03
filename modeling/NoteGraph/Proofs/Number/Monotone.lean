import NoteGraph.Proofs.Number.Whole

/-!
# Rounded arithmetic keeps order

Every defined number has an extent, which is its signed number of units and for infinite
numbers the first power of two that is out of reach. Numbers compare by their extents, and
rounding keeps the order of extents, so adding one number to two others never swaps them. A
sum may only become equal where it was less.
-/

namespace NoteGraph.Number

namespace Binary64

/-! ### Extents -/

/-- The signed number of units of a number; infinite numbers come just after all others. -/
def extent : Binary64 → ℤ
  | finite negative units _ => signedUnits negative units
  | infinite negative => signedUnits negative unitsOutOfReach
  | undefined => 0

@[simp] theorem extent_finite (n : Bool) {u : ℕ} (hu : Fits u) :
    (finite n u hu).extent = signedUnits n u := rfl

theorem extent_zero : zero.extent = 0 := by
  rw [zero_eq, extent_finite, signedUnits_false, Nat.cast_zero]

theorem finite_ne_undefined (n : Bool) {u : ℕ} (hu : Fits u) : finite n u hu ≠ undefined := by
  intro h
  cases h

theorem infinite_ne_undefined (n : Bool) : infinite n ≠ undefined := by
  intro h
  cases h

theorem zero_ne_undefined : zero ≠ undefined := by
  rw [zero_eq]
  exact finite_ne_undefined _ _

theorem natAbs_extent_lt_of_fits (n : Bool) {u : ℕ} (hu : Fits u) :
    (finite n u hu).extent.natAbs < unitsOutOfReach := by
  rw [extent_finite, natAbs_signedUnits]
  exact hu.2

theorem extent_finite_lt (n : Bool) {u : ℕ} (hu : Fits u) :
    (finite n u hu).extent < (infinite false).extent := by
  have hreach := natAbs_extent_lt_of_fits n hu
  change _ < signedUnits false unitsOutOfReach
  rw [signedUnits_false]
  omega

theorem lt_extent_finite (n : Bool) {u : ℕ} (hu : Fits u) :
    (infinite true).extent < (finite n u hu).extent := by
  have hreach := natAbs_extent_lt_of_fits n hu
  change signedUnits true unitsOutOfReach < _
  rw [signedUnits_true]
  omega

theorem extent_infinite_lt : (infinite true).extent < (infinite false).extent :=
  (lt_extent_finite false fits_zero).trans (extent_finite_lt false fits_zero)

theorem le_infinite {x : Binary64} (h : x ≠ undefined) : x.le (infinite false) = true := by
  cases x with
  | undefined => exact absurd rfl h
  | finite => rfl
  | infinite n => cases n <;> rfl

theorem infinite_le {x : Binary64} (h : x ≠ undefined) : (infinite true).le x = true := by
  cases x with
  | undefined => exact absurd rfl h
  | finite => rfl
  | infinite n => cases n <;> rfl

theorem ne_undefined_of_le {x y : Binary64} (h : x.le y = true) :
    x ≠ undefined ∧ y ≠ undefined := by
  constructor
  · rintro rfl
    cases h
  · rintro rfl
    cases x <;> cases h

theorem le_iff_extent_le {x y : Binary64} (hx : x ≠ undefined) (hy : y ≠ undefined) :
    x.le y = true ↔ x.extent ≤ y.extent := by
  cases x with
  | undefined => exact absurd rfl hx
  | finite n u hu =>
    cases y with
    | undefined => exact absurd rfl hy
    | finite m v hv => exact le_finite hu hv
    | infinite m =>
      cases m with
      | true => exact iff_of_false Bool.false_ne_true (lt_extent_finite n hu).not_ge
      | false => exact iff_of_true rfl (extent_finite_lt n hu).le
  | infinite n =>
    cases y with
    | undefined => exact absurd rfl hy
    | finite m v hv =>
      cases n with
      | true => exact iff_of_true rfl (lt_extent_finite m hv).le
      | false => exact iff_of_false Bool.false_ne_true (extent_finite_lt m hv).not_ge
    | infinite m =>
      cases n with
      | true =>
        refine iff_of_true (infinite_le hy) ?_
        cases m with
        | true => exact le_rfl
        | false => exact extent_infinite_lt.le
      | false =>
        cases m with
        | true => exact iff_of_false Bool.false_ne_true extent_infinite_lt.not_ge
        | false => exact iff_of_true rfl le_rfl

/-- Numbers compare by their extents. -/
theorem le_iff {x y : Binary64} :
    x.le y = true ↔ x ≠ undefined ∧ y ≠ undefined ∧ x.extent ≤ y.extent := by
  constructor
  · intro h
    obtain ⟨hx, hy⟩ := ne_undefined_of_le h
    exact ⟨hx, hy, (le_iff_extent_le hx hy).mp h⟩
  · rintro ⟨hx, hy, hle⟩
    exact (le_iff_extent_le hx hy).mpr hle

theorem le_trans {x y z : Binary64} (hxy : x.le y = true) (hyz : y.le z = true) :
    x.le z = true := by
  obtain ⟨hx, -, hle⟩ := le_iff.mp hxy
  obtain ⟨-, hz, hle'⟩ := le_iff.mp hyz
  exact le_iff.mpr ⟨hx, hz, hle.trans hle'⟩

/-! ### Rounding -/

theorem ofUnitRatio_ne_undefined (negative : Bool) (num den : ℕ) :
    ofUnitRatio negative num den ≠ undefined := by
  unfold ofUnitRatio
  split_ifs
  · exact finite_ne_undefined _ _
  · exact infinite_ne_undefined _

theorem ofUnits_ne_undefined (d : ℤ) : ofUnits d ≠ undefined := ofUnitRatio_ne_undefined _ _ _

theorem extent_ofUnitRatio (negative : Bool) (num den : ℕ) :
    (ofUnitRatio negative num den).extent =
      signedUnits negative (min (roundUnits num den) unitsOutOfReach) := by
  unfold ofUnitRatio
  split_ifs with h
  · rw [extent_finite, Nat.min_eq_left h.le]
  · rw [Nat.min_eq_right (not_lt.mp h)]
    rfl

theorem extent_ofUnits (d : ℤ) : (ofUnits d).extent =
    signedUnits (d < 0) (min (roundUnits d.natAbs 1) unitsOutOfReach) :=
  extent_ofUnitRatio _ _ _

/-- Rounding never swaps two quantities. -/
theorem extent_ofUnits_mono {a b : ℤ} (h : a ≤ b) : (ofUnits a).extent ≤ (ofUnits b).extent := by
  rw [extent_ofUnits, extent_ofUnits]
  by_cases ha : a < 0
  · rw [decide_eq_true ha, signedUnits_true]
    by_cases hb : b < 0
    · rw [decide_eq_true hb, signedUnits_true]
      have hround := roundUnits_mono (a := b.natAbs) (b := a.natAbs) (by omega)
      omega
    · rw [decide_eq_false hb, signedUnits_false]
      omega
  · have hb : ¬b < 0 := by omega
    rw [decide_eq_false ha, decide_eq_false hb, signedUnits_false, signedUnits_false]
    have hround := roundUnits_mono (a := a.natAbs) (b := b.natAbs) (by omega)
    omega

theorem extent_ofInt_mono {a b : ℤ} (h : a ≤ b) : (ofInt a).extent ≤ (ofInt b).extent := by
  rw [ofInt_eq_ofUnits, ofInt_eq_ofUnits]
  exact extent_ofUnits_mono (Int.mul_le_mul_of_nonneg_right h (Int.natCast_nonneg _))

/-- A number that fits is what it is rounded to. -/
theorem extent_ofUnits_of_fits {d : ℤ} (h : Fits d.natAbs) : (ofUnits d).extent = d := by
  rw [extent_ofUnits, roundUnits_of_fits h, Nat.min_eq_left h.2.le]
  by_cases hd : d < 0
  · rw [decide_eq_true hd, signedUnits_true]
    omega
  · rw [decide_eq_false hd, signedUnits_false]
    omega

/-! ### Sums -/

theorem extent_finite_add_finite (n m : Bool) {u v : ℕ} (hu : Fits u) (hv : Fits v) :
    (finite n u hu + finite m v hv).extent =
      (ofUnits (signedUnits n u + signedUnits m v)).extent := by
  rw [finite_add_finite]
  split_ifs with hzero hsign
  · obtain ⟨rfl, rfl⟩ := Bool.and_eq_true_iff.mp hsign
    rw [hzero, ofUnits_zero, extent_zero, extent_finite]
    rw [signedUnits_true, signedUnits_true] at hzero
    rw [signedUnits_true]
    omega
  · rw [hzero, ofUnits_zero]
  · rfl

theorem finite_add_finite_ne_undefined (n m : Bool) {u v : ℕ} (hu : Fits u) (hv : Fits v) :
    finite n u hu + finite m v hv ≠ undefined := by
  rw [finite_add_finite]
  split_ifs
  · exact finite_ne_undefined _ _
  · exact zero_ne_undefined
  · exact ofUnits_ne_undefined _

/-- Adding a number keeps the order of two others, unless a sum is undefined. -/
theorem add_le_add_right {x y w : Binary64} (h : x.le y = true) (hx : x + w ≠ undefined)
    (hy : y + w ≠ undefined) : (x + w).le (y + w) = true := by
  cases w with
  | undefined => cases x <;> exact absurd rfl hx
  | infinite s =>
    -- a defined sum with an infinite number is that number
    have hsum : ∀ z : Binary64, z + infinite s ≠ undefined → z + infinite s = infinite s := by
      intro z hz
      cases z with
      | undefined => exact absurd rfl hz
      | finite => rfl
      | infinite n => cases n <;> cases s <;> first | rfl | exact absurd rfl hz
    rw [hsum x hx, hsum y hy]
    cases s <;> rfl
  | finite k c hc =>
    cases x with
    | undefined => exact absurd rfl hx
    | infinite n =>
      cases n with
      | true => exact infinite_le hy
      | false =>
        cases y with
        | infinite m => cases m <;> first | rfl | cases h
        | finite => cases h
        | undefined => cases h
    | finite n u hu =>
      cases y with
      | undefined => exact absurd rfl hy
      | infinite m =>
        cases m with
        | true => cases h
        | false => exact le_infinite hx
      | finite m v hv =>
        have hle := (le_finite hu hv).mp h
        refine le_iff.mpr ⟨hx, hy, ?_⟩
        rw [extent_finite_add_finite, extent_finite_add_finite]
        exact extent_ofUnits_mono (Int.add_le_add_right hle _)

/-- A number is at most another, or undefined. -/
def AtMost (x y : Binary64) : Prop := x = undefined ∨ x.le y = true

theorem AtMost.le {x y z : Binary64} (h : x.AtMost y) (hz : z.le x = true) : z.le y = true := by
  rcases h with rfl | h
  · exact absurd rfl (le_iff.mp hz).2.1
  · exact le_trans hz h

theorem add_finite_ne_undefined {x : Binary64} (hx : x ≠ undefined) (n : Bool) {u : ℕ}
    (hu : Fits u) : x + finite n u hu ≠ undefined := by
  cases x with
  | undefined => exact absurd rfl hx
  | finite m v hv => exact finite_add_finite_ne_undefined m n hv hu
  | infinite m => exact infinite_ne_undefined m

theorem AtMost.add {x y w : Binary64} (h : x.AtMost y) (hw : w.NonNeg) :
    (x + w).AtMost (y + w) := by
  by_cases hx : x + w = undefined
  · exact .inl hx
  rcases h with rfl | h
  · cases w <;> exact absurd rfl hx
  refine .inr (add_le_add_right h hx ?_)
  cases hw with
  | finite => exact add_finite_ne_undefined (le_iff.mp h).2.1 _ _
  | infinite =>
    cases y with
    | undefined => exact absurd rfl (le_iff.mp h).2.1
    | finite => exact infinite_ne_undefined _
    | infinite m =>
      cases m with
      | false => exact infinite_ne_undefined _
      | true =>
        -- below the least number there is only itself, and its sum is undefined too
        cases x with
        | undefined => exact absurd rfl hx
        | finite => cases h
        | infinite n =>
          cases n with
          | false => cases h
          | true => exact absurd rfl hx

/-- Taking a number keeps the order of two others if the first comes up to it but for a finite
difference. -/
theorem AtMost.sub {x y w : Binary64} (h : x.AtMost y) (hw : w.NonNeg) {n : Bool} {u : ℕ}
    {hu : Fits u} (hcovers : (w - finite n u hu).le x = true) : (x - w).AtMost (y - w) := by
  by_cases hx : x - w = undefined
  · exact .inl hx
  rcases h with rfl | h
  · cases w <;> exact absurd rfl hx
  refine .inr (add_le_add_right h hx ?_)
  cases hw with
  | finite => exact add_finite_ne_undefined (le_iff.mp h).2.1 _ _
  | infinite =>
    cases x with
    | undefined => exact absurd rfl hx
    | finite => cases hcovers
    | infinite m =>
      cases m with
      | false => exact absurd rfl hx
      | true => cases hcovers

/-! ### What is as good as zero -/

/-- A number is small if its extent is. -/
theorem abs_lt_iff {x : Binary64} {v : ℕ} (hv : Fits v) : x.abs.lt (finite false v hv) = true ↔
    x ≠ undefined ∧ x.extent.natAbs < v := by
  cases x with
  | undefined => simp [abs, lt, compare?]
  | finite n u hu =>
    rw [abs, lt_finite, signedUnits_false, signedUnits_false, extent_finite, natAbs_signedUnits]
    simp
  | infinite n =>
    have hreach := hv.2
    rw [extent, natAbs_signedUnits]
    simp only [abs, lt, compare?, ne_eq, reduceCtorEq, not_false_eq_true, true_and]
    constructor
    · intro h
      cases h
    · omega

end Binary64

/-! ### Whole numbers -/

namespace Binary64

theorem ofInt_ne_undefined (n : ℤ) : ofInt n ≠ undefined := by
  rw [ofInt_eq_ofUnits]
  exact ofUnits_ne_undefined _

section Whole

variable {x y : Binary64} {a b : ℤ} (hx : x.toInt? = some a)

include hx

theorem ne_undefined_of_toInt? : x ≠ undefined := by
  rintro rfl
  cases hx

theorem extent_of_toInt? : x.extent = a * unitsPerOne := by
  obtain ⟨n, k, hk, rfl, rfl⟩ := toInt?_eq_some hx
  rw [extent_finite, signedUnits_mul]

theorem extent_ofInt_of_toInt? : (ofInt a).extent = x.extent := by
  rw [extent_of_toInt? hx, ofInt_eq_ofUnits]
  obtain ⟨n, k, hk, rfl, rfl⟩ := toInt?_eq_some hx
  rw [← signedUnits_mul]
  exact extent_ofUnits_of_fits (by rwa [natAbs_signedUnits])

variable (hy : y.toInt? = some b)

include hy

/-- Whole numbers that are floating-point numbers compare by their values. -/
theorem le_of_toInt? (h : a ≤ b) : x.le y = true := by
  refine le_iff.mpr ⟨ne_undefined_of_toInt? hx, ne_undefined_of_toInt? hy, ?_⟩
  rw [extent_of_toInt? hx, extent_of_toInt? hy]
  exact Int.mul_le_mul_of_nonneg_right h (Int.natCast_nonneg _)

/-- A sum of whole numbers is the exact sum, rounded. -/
theorem extent_add_of_toInt? : (x + y).extent = (ofInt (a + b)).extent := by
  obtain ⟨n, k, hk, rfl, rfl⟩ := toInt?_eq_some hx
  obtain ⟨m, l, hl, rfl, rfl⟩ := toInt?_eq_some hy
  rw [extent_finite_add_finite, signedUnits_mul, signedUnits_mul, ← Int.add_mul,
    ofInt_eq_ofUnits]

theorem add_ne_undefined_of_toInt? : x + y ≠ undefined := by
  obtain ⟨m, l, hl, rfl, -⟩ := toInt?_eq_some hy
  exact add_finite_ne_undefined (ne_undefined_of_toInt? hx) m hl

end Whole

end Binary64

open Binary64

/-- A number of either kind that is counted keeps its extent. -/
theorem extent_ofWhole (x : Binary64) : (ofWhole x).toBinary64.extent = x.extent := by
  unfold ofWhole
  split
  · rename_i n hn
    exact extent_ofInt_of_toInt? hn
  · rfl

theorem ofWhole_eq_undefined_iff {x : Binary64} :
    (ofWhole x).toBinary64 = .undefined ↔ x = .undefined := by
  unfold ofWhole
  split
  · rename_i n hn
    exact iff_of_false (ofInt_ne_undefined n) (ne_undefined_of_toInt? hn)
  · exact Iff.rfl

/-- A whole number is its value, as far as floating-point numbers can tell. -/
theorem extent_of_isWhole {n : Number} (h : n.IsWhole) :
    n.toBinary64 ≠ .undefined ∧ n.toBinary64.extent = (ofInt n.value).extent := by
  cases n with
  | int n => exact ⟨ofInt_ne_undefined n, rfl⟩
  | float x =>
    obtain ⟨a, ha⟩ := Option.isSome_iff_exists.mp h
    rw [value_of_toInt? ha]
    exact ⟨ne_undefined_of_toInt? ha, (extent_ofInt_of_toInt? ha).symm⟩

theorem le_toBinary64_of_value_le {m n : Number} (hm : m.IsWhole) (hn : n.IsWhole)
    (h : m.value ≤ n.value) : m.toBinary64.le n.toBinary64 = true := by
  obtain ⟨hdef, hextent⟩ := extent_of_isWhole hm
  obtain ⟨hdef', hextent'⟩ := extent_of_isWhole hn
  refine le_iff.mpr ⟨hdef, hdef', ?_⟩
  rw [hextent, hextent']
  exact extent_ofInt_mono h

theorem int_lt_int {a b : ℤ} : Number.lt (.int b) (.int a) = true ↔ b < a := by
  simp only [Number.lt, compare?, beq_iff_eq, Option.some.injEq, compare_lt_iff_lt]

theorem finite_lt_int {m : Bool} {u : ℕ} {hu : Fits u} {a : ℤ} :
    Number.lt (.float (.finite m u hu)) (.int a) = true ↔ signedUnits m u < a * unitsPerOne := by
  simp only [Number.lt, compare?, compare?.compareInt, Option.map_some, beq_iff_eq,
    Option.some.injEq, Ordering.swap_eq_lt, compare_gt_iff_gt]

theorem value_lt_of_lt {n : Number} (hn : n.IsWhole) {a : ℤ}
    (h : Number.lt n (.int a) = true) : n.value < a := by
  cases n with
  | int b => exact int_lt_int.mp h
  | float x =>
    obtain ⟨b, hb⟩ := Option.isSome_iff_exists.mp hn
    obtain ⟨m, k, hk, rfl, rfl⟩ := toInt?_eq_some hb
    have hlt := finite_lt_int.mp h
    rw [signedUnits_mul] at hlt
    rw [value_of_toInt? hb]
    exact Int.lt_of_mul_lt_mul_right hlt (Int.natCast_nonneg _)

/-- What is below an exact bound is not at least the bound once it is a floating-point
number. -/
theorem not_le_of_lt {n : Number} {a : ℤ} (hpos : 0 < a) (hexact : a ≤ 2 ^ 53)
    (h : Number.lt n (.int a) = true) : ¬(Number.int a).toBinary64.le n.toBinary64 = true := by
  have hbound : (Number.int a).toBinary64.toInt? = some a := toInt?_ofInt (by omega)
  have hunits : (0 : ℤ) < unitsPerOne := Int.natCast_pos.mpr unitsPerOne_pos
  intro hle
  obtain ⟨-, -, hextent⟩ := le_iff.mp hle
  rw [extent_of_toInt? hbound] at hextent
  cases n with
  | int b =>
    have hlt := int_lt_int.mp h
    -- the whole number before the bound is exact too
    have hbefore : (ofInt (a - 1)).extent = (a - 1) * unitsPerOne :=
      extent_of_toInt? (toInt?_ofInt (by omega))
    have hlast : a * unitsPerOne ≤ (a - 1) * unitsPerOne :=
      hextent.trans (hbefore ▸ extent_ofInt_mono (by omega))
    have := Int.le_of_mul_le_mul_right hlast hunits
    omega
  | float x =>
    cases x with
    | undefined => cases h
    | finite m u hu =>
      have hlt := finite_lt_int.mp h
      rw [toBinary64, extent_finite] at hextent
      omega
    | infinite m =>
      cases m with
      | false => cases h
      | true =>
        rw [toBinary64, extent, signedUnits_true] at hextent
        have := Int.mul_pos hpos hunits
        omega

end NoteGraph.Number
