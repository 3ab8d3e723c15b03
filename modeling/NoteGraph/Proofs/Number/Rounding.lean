import Mathlib.Tactic.Ring
import NoteGraph.Number.Binary64

/-!
# Rounding keeps order

Rounding to the nearest floating-point number never swaps two quantities, leaves alone
what already fits, and moves a quantity by at most half of the spacing around it.
-/

namespace NoteGraph.Number

/-! ### Quotients -/

theorem roundDiv_mono {a b : ℕ} (h : a ≤ b) (den : ℕ) : roundDiv a den ≤ roundDiv b den := by
  rcases Nat.lt_or_ge (a / den) (b / den) with hlt | hge
  · have ha := roundDiv_le a den
    have hb := div_le_roundDiv b den
    omega
  · have hq : a / den = b / den := le_antisymm (Nat.div_le_div_right h) hge
    have ha := Nat.div_add_mod a den
    have hb := Nat.div_add_mod b den
    have hr : a % den ≤ b % den := by rw [hq] at ha; omega
    simp only [roundDiv, hq]
    split_ifs <;> omega

theorem roundDiv_mul_self (n : ℕ) {den : ℕ} (h : 0 < den) : roundDiv (n * den) den = n := by
  simp [roundDiv, Nat.mul_div_cancel _ h, h]

/-- A rounded quotient is too small by at most one half. -/
theorem two_mul_le_roundDiv (num : ℕ) {den : ℕ} (h : 0 < den) :
    2 * num ≤ 2 * (roundDiv num den * den) + den := by
  have hd := Nat.div_add_mod' num den
  have hr := Nat.mod_lt num h
  have hq : (num / den + 1) * den = num / den * den + den := by ring
  simp only [roundDiv]
  split_ifs <;> omega

namespace Binary64

/-! ### Units -/

theorem excessBits_one (n : ℕ) : excessBits n 1 = n.log2 + 1 - 53 := by
  simp [excessBits]

theorem roundUnits_one (n : ℕ) :
    roundUnits n 1 = roundDiv n (2 ^ excessBits n 1) * 2 ^ excessBits n 1 := by
  simp [roundUnits]

theorem excessBits_mono {a b : ℕ} (h : a ≤ b) : excessBits a 1 ≤ excessBits b 1 := by
  rcases Nat.eq_zero_or_pos a with rfl | ha
  · simp [excessBits_one]
  · have hlog : a.log2 ≤ b.log2 :=
      (Nat.le_log2 (by omega)).mpr ((Nat.log2_self_le (by omega)).trans h)
    rw [excessBits_one, excessBits_one]
    omega

/-- What needs to be cut has at least 53 bits. -/
theorem le_of_excessBits_pos {n : ℕ} (h : 0 < excessBits n 1) :
    2 ^ (52 + excessBits n 1) ≤ n := by
  have hlog : 52 + excessBits n 1 = n.log2 := by rw [excessBits_one] at h ⊢; omega
  rw [hlog]
  refine Nat.log2_self_le fun h0 => ?_
  subst h0
  simp [excessBits_one] at h

theorem roundUnits_le_two_pow (n : ℕ) : roundUnits n 1 ≤ 2 ^ (53 + excessBits n 1) := by
  have h := roundUnits_significand_le n 1
  rw [roundUnits_one, pow_add]
  simp only [Nat.pow_eq, one_mul] at h
  exact Nat.mul_le_mul_right _ h

theorem roundUnits_mono {a b : ℕ} (h : a ≤ b) : roundUnits a 1 ≤ roundUnits b 1 := by
  rcases (excessBits_mono h).lt_or_eq with hlt | heq
  · -- a power of two lies between the two ranges
    calc roundUnits a 1 ≤ 2 ^ (53 + excessBits a 1) := roundUnits_le_two_pow a
      _ ≤ 2 ^ (52 + excessBits b 1) := Nat.pow_le_pow_right (by decide) (by omega)
      _ ≤ roundUnits b 1 := ?_
    have hb := le_of_excessBits_pos (n := b) (by omega)
    have hdiv : 2 ^ 52 ≤ b / 2 ^ excessBits b 1 := by
      rw [Nat.le_div_iff_mul_le (Nat.two_pow_pos _), ← pow_add]
      exact hb
    rw [roundUnits_one, pow_add]
    exact Nat.mul_le_mul_right _ (hdiv.trans (div_le_roundDiv _ _))
  · rw [roundUnits_one, roundUnits_one, heq]
    exact Nat.mul_le_mul_right _ (roundDiv_mono h _)

/-- What fits has no bits in excess that are not zero. -/
theorem two_pow_excessBits_dvd {n : ℕ} (h : Fits n) : 2 ^ excessBits n 1 ∣ n := by
  obtain ⟨⟨s, e, hs, rfl⟩, -⟩ := h
  simp only [Nat.pow_eq] at hs ⊢
  rcases Nat.lt_or_ge e (excessBits (s * 2 ^ e) 1) with hlt | hge
  · -- more bits than the significand has: the number is a power of two
    have hlow := le_of_excessBits_pos (n := s * 2 ^ e) (by omega)
    have hhigh : s * 2 ^ e ≤ 2 ^ (52 + excessBits (s * 2 ^ e) 1) :=
      calc s * 2 ^ e ≤ 2 ^ 53 * 2 ^ e := Nat.mul_le_mul_right _ hs
        _ = 2 ^ (53 + e) := (pow_add 2 53 e).symm
        _ ≤ 2 ^ (52 + excessBits (s * 2 ^ e) 1) := Nat.pow_le_pow_right (by decide) (by omega)
    rw [le_antisymm hhigh hlow]
    exact pow_dvd_pow _ (by rw [← le_antisymm hhigh hlow]; omega)
  · exact (pow_dvd_pow 2 hge).mul_left s

theorem roundUnits_of_fits {n : ℕ} (h : Fits n) : roundUnits n 1 = n := by
  obtain ⟨k, hk⟩ := two_pow_excessBits_dvd h
  have hk' : n = k * 2 ^ excessBits n 1 := by rw [mul_comm]; exact hk
  calc roundUnits n 1
      = roundDiv (k * 2 ^ excessBits n 1) (2 ^ excessBits n 1) * 2 ^ excessBits n 1 := by
        rw [roundUnits_one, ← hk']
    _ = k * 2 ^ excessBits n 1 := by rw [roundDiv_mul_self k (Nat.two_pow_pos _)]
    _ = n := hk'.symm

theorem roundUnits_le_of_le_fits {a n : ℕ} (h : a ≤ n) (hn : Fits n) : roundUnits a 1 ≤ n :=
  roundUnits_of_fits hn ▸ roundUnits_mono h

theorem le_roundUnits_of_fits_le {a n : ℕ} (ha : Fits a) (h : a ≤ n) : a ≤ roundUnits n 1 :=
  (roundUnits_of_fits ha).ge.trans (roundUnits_mono h)

theorem roundUnits_zero (den : ℕ) : roundUnits 0 den = 0 := by
  simp [roundUnits, roundDiv]

theorem fits_zero : Fits 0 := ⟨⟨0, 0, by decide, by simp⟩, by decide +kernel⟩

theorem fits_one : Fits 1 := ⟨⟨1, 0, by decide, by simp⟩, by decide +kernel⟩

theorem roundUnits_pos {n : ℕ} (h : 0 < n) : 0 < roundUnits n 1 :=
  le_roundUnits_of_fits_le fits_one h

/-- Rounding makes no parts of a power of two from whole multiples of it. -/
theorem dvd_roundUnits {u e : ℕ} (n : ℕ) (hu : u = 2 ^ e) : u ∣ roundUnits (n * u) 1 := by
  subst hu
  rw [roundUnits_one]
  rcases Nat.le_total e (excessBits (n * 2 ^ e) 1) with hle | hge
  · exact (pow_dvd_pow 2 hle).mul_left _
  · -- the multiple has no bits to be cut
    obtain ⟨k, hk⟩ := (pow_dvd_pow 2 hge).mul_left n
    refine ⟨n, ?_⟩
    rw [mul_comm (2 ^ e) n]
    calc roundDiv (n * 2 ^ e) (2 ^ excessBits (n * 2 ^ e) 1) * 2 ^ excessBits (n * 2 ^ e) 1
        = roundDiv (k * 2 ^ excessBits (n * 2 ^ e) 1) (2 ^ excessBits (n * 2 ^ e) 1) *
            2 ^ excessBits (n * 2 ^ e) 1 := by rw [mul_comm k, ← hk]
      _ = k * 2 ^ excessBits (n * 2 ^ e) 1 := by rw [roundDiv_mul_self k (Nat.two_pow_pos _)]
      _ = n * 2 ^ e := by rw [mul_comm k, ← hk]

/-- Rounding takes away at most half of the spacing of `2 ^ e` that numbers below
`2 ^ (53 + e)` have at the most. -/
theorem two_mul_le_roundUnits {n e : ℕ} (h : n < 2 ^ (53 + e)) :
    2 * n ≤ 2 * roundUnits n 1 + 2 ^ e := by
  have he : excessBits n 1 ≤ e := by
    rcases Nat.eq_zero_or_pos n with rfl | hn
    · simp [excessBits_one]
    · have := (Nat.log2_lt (by omega)).mpr h
      rw [excessBits_one]
      omega
  have hround := two_mul_le_roundDiv n (Nat.two_pow_pos (excessBits n 1))
  rw [← roundUnits_one] at hround
  have := Nat.pow_le_pow_right (n := 2) (by decide) he
  omega

theorem two_mul_sub_le_roundUnits {u e l t : ℕ} (hu : u = 2 ^ e) (hl : l ≤ 2 ^ 53)
    (ht : 0 < t) : 2 * (l * u - t) ≤ 2 * roundUnits (l * u - t) 1 + u := by
  subst hu
  rcases Nat.eq_zero_or_pos (l * 2 ^ e - t) with hzero | hpos
  · rw [hzero]
    exact Nat.zero_le _
  · refine two_mul_le_roundUnits ?_
    have hle := Nat.mul_le_mul_right (2 ^ e) hl
    rw [← pow_add] at hle
    omega

end Binary64

end NoteGraph.Number
