import NoteGraph.Proofs.Number.Whole

/-!
# Equality by value

Numbers that are equal by value have one exact value. So equality by value is symmetric and
transitive, and it is reflexive but for the number that is undefined.
-/

namespace NoteGraph.Number

/-- What numbers are equal by: a whole number of units, or the sign of an infinity. -/
inductive ExactValue where
  | finite (units : ℤ)
  | infinite (negative : Bool)

/-- The exact value of a number, if it has one. -/
def exactValue? : Number → Option ExactValue
  | int n => some (.finite (n * unitsPerOne))
  | float (.finite negative units _) => some (.finite (Binary64.signedUnits negative units))
  | float (.infinite negative) => some (.infinite negative)
  | float .undefined => none

theorem exactValue?_int (n : ℤ) : exactValue? (.int n) = some (.finite (n * unitsPerOne)) := rfl

theorem compareInt_eq_iff (n : ℤ) (x : Binary64) : compare?.compareInt n x = some .eq ↔
    exactValue? (.float x) = some (.finite (n * unitsPerOne)) := by
  cases x with
  | undefined => simp only [compare?.compareInt, exactValue?, reduceCtorEq]
  | infinite m =>
    cases m <;> simp only [compare?.compareInt, exactValue?, Option.some.injEq, reduceCtorEq,
      Bool.false_eq_true, if_true, if_false]
  | finite m u hu =>
    simp only [compare?.compareInt, exactValue?, Option.some.injEq, ExactValue.finite.injEq,
      compare_eq_iff_eq]
    exact eq_comm

theorem Binary64.compare?_eq_iff (x y : Binary64) : compare? x y = some .eq ↔
    ∃ v, exactValue? (.float x) = some v ∧ exactValue? (.float y) = some v := by
  cases x with
  | undefined => cases y <;> simp [compare?, exactValue?]
  | infinite n =>
    cases y with
    | undefined => simp [compare?, exactValue?]
    | infinite m => simp [compare?, exactValue?]
    | finite m v hv => cases n <;> simp [compare?, exactValue?]
  | finite n u hu =>
    cases y with
    | undefined => simp [compare?, exactValue?]
    | infinite m => cases m <;> simp [compare?, exactValue?]
    | finite m v hv =>
      simp only [compare?, exactValue?, Option.some.injEq, compare_eq_iff_eq, exists_eq_left',
        ExactValue.finite.injEq]
      exact eq_comm

/-- Numbers are equal by value when they have one exact value. -/
theorem same_iff (a b : Number) : a.same b = true ↔
    ∃ v, a.exactValue? = some v ∧ b.exactValue? = some v := by
  rw [same, beq_iff_eq]
  cases a with
  | int n =>
    cases b with
    | int m =>
      have hpos : (unitsPerOne : ℤ) ≠ 0 := by exact_mod_cast Binary64.unitsPerOne_pos.ne'
      simp only [compare?, exactValue?, Option.some.injEq, compare_eq_iff_eq, exists_eq_left',
        ExactValue.finite.injEq, mul_eq_mul_right_iff, hpos, or_false]
      exact eq_comm
    | float y =>
      rw [compare?, compareInt_eq_iff]
      simp only [exactValue?_int, Option.some.injEq, exists_eq_left']
  | float x =>
    cases b with
    | int m =>
      have hswap : ((compare?.compareInt m x).map Ordering.swap = some .eq) ↔
          compare?.compareInt m x = some .eq := by
        cases compare?.compareInt m x with
        | none => simp
        | some o => cases o <;> simp
      rw [compare?, hswap, compareInt_eq_iff]
      simp only [exactValue?_int, Option.some.injEq, exists_eq_right']
    | float y => exact Binary64.compare?_eq_iff x y

theorem same_symm {a b : Number} (h : a.same b = true) : b.same a = true := by
  obtain ⟨v, ha, hb⟩ := (same_iff a b).mp h
  exact (same_iff b a).mpr ⟨v, hb, ha⟩

theorem same_trans {a b c : Number} (h : a.same b = true) (h' : b.same c = true) :
    a.same c = true := by
  obtain ⟨v, ha, hb⟩ := (same_iff a b).mp h
  obtain ⟨w, hb', hc⟩ := (same_iff b c).mp h'
  obtain rfl := Option.some.inj (hb.symm.trans hb')
  exact (same_iff a c).mpr ⟨v, ha, hc⟩

theorem same_infinite {n : Number} (negative : Bool) (h : n.toBinary64.isFinite = true) :
    same (.float (.infinite negative)) n = false := by
  rw [Bool.eq_false_iff]
  intro hsame
  obtain ⟨v, hv, hn⟩ := (same_iff _ _).mp hsame
  obtain rfl := Option.some.inj hv
  cases n with
  | int k => cases hn
  | float x =>
    cases x with
    | finite => cases hn
    | infinite => cases h
    | undefined => cases h

/-- A number above zero is not zero. -/
theorem same_zero_eq_false {n : Number} (h : Number.lt 0 (.float n.toBinary64) = true) :
    n.same 0 = false := by
  cases n with
  | float x =>
    have hlt : compare?.compareInt 0 x = some .lt := beq_iff_eq.mp h
    change (((compare?.compareInt 0 x).map Ordering.swap) == some .eq) = false
    rw [hlt]
    rfl
  | int k =>
    have hne : k ≠ 0 := by
      rintro rfl
      change Number.lt 0 (.float Binary64.zero) = true at h
      rw [Binary64.zero_eq, zero_lt_iff, Binary64.signedUnits_false] at h
      exact absurd h (by decide)
    change (some (compare k 0) == some .eq) = false
    simpa using hne

/-- Only the undefined number differs from itself. -/
theorem same_self_iff (a : Number) : a.same a = true ↔ a ≠ .float .undefined := by
  rw [same_iff]
  cases a with
  | int n => exact iff_of_true ⟨_, exactValue?_int n, exactValue?_int n⟩ (by simp)
  | float x => cases x <;> simp [exactValue?]

end NoteGraph.Number
