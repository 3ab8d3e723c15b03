import NoteGraph.Language.Relation
import NoteGraph.Proofs.Number.Whole

/-!
# Canonical numbers

The numbers that texts write are whole numbers wherever they can be, so two of them are
equal by value only if they are the same.
-/

namespace NoteGraph

namespace Number

/-- A number in the form in which numerals are read: a whole number if it is one. -/
def IsCanonical (n : Number) : Prop := ∃ x, n = ofWhole x

theorem isCanonical_one : IsCanonical (.int 1) :=
  ⟨.ofInt 1, (ofWhole_of_toInt? (Binary64.toInt?_ofInt (by decide))).symm⟩

/-- A canonical floating-point number has a fraction, or is not finite. -/
theorem IsCanonical.toInt?_eq_none {x : Binary64} (h : IsCanonical (.float x)) :
    x.toInt? = none := by
  obtain ⟨y, hy⟩ := h
  unfold ofWhole at hy
  split at hy
  · cases hy
  · rename_i hnone
    rwa [Number.float.inj hy]

theorem isCanonical_of_ofNumeral {text : String} {n : Number} (h : ofNumeral text = .ok n) :
    n.IsCanonical := by
  rw [ofNumeral] at h
  cases hread : readNumeral text with
  | error e =>
    rw [hread] at h
    cases h
  | ok x =>
    rw [hread] at h
    exact ⟨x, (Except.ok.inj h).symm⟩

theorem Binary64.mod_ne_zero_of_toInt?_eq_none {n : Bool} {u : ℕ} {hu : Fits u}
    (h : (finite n u hu).toInt? = none) : u % unitsPerOne ≠ 0 := by
  intro hmod
  rw [toInt?, if_pos hmod] at h
  cases h

/-- Only zero has two forms that compare as equal. -/
theorem Binary64.eq_of_same {x y : Binary64} (hx : x.toInt? = none)
    (h : compare? x y = some .eq) : x = y := by
  cases x with
  | undefined => cases y <;> cases h
  | infinite n =>
    cases y with
    | undefined => cases h
    | infinite m => rw [compare_eq_iff_eq.mp (Option.some.inj h)]
    | finite m v hv => cases n <;> cases h
  | finite n u hu =>
    cases y with
    | undefined => cases h
    | infinite m => cases m <;> cases h
    | finite m v hv =>
      have hunits : signedUnits n u = signedUnits m v :=
        compare_eq_iff_eq.mp (Option.some.inj h)
      have hne : u ≠ 0 := by
        rintro rfl
        exact mod_ne_zero_of_toInt?_eq_none hx (Nat.zero_mod _)
      rw [finite.injEq]
      cases n with
      | false =>
        cases m with
        | false =>
          rw [signedUnits_false, signedUnits_false] at hunits
          exact ⟨rfl, by omega⟩
        | true =>
          rw [signedUnits_false, signedUnits_true] at hunits
          omega
      | true =>
        cases m with
        | false =>
          rw [signedUnits_false, signedUnits_true] at hunits
          omega
        | true =>
          rw [signedUnits_true, signedUnits_true] at hunits
          exact ⟨rfl, by omega⟩

/-- What equals a whole number by value is one. -/
theorem isSome_toInt?_of_compareInt {n : ℤ} {x : Binary64}
    (h : compare?.compareInt n x = some .eq) : x.toInt? ≠ none := by
  cases x with
  | undefined => cases h
  | infinite m => cases m <;> cases h
  | finite m u hu =>
    intro hnone
    have hunits : n * unitsPerOne = Binary64.signedUnits m u :=
      compare_eq_iff_eq.mp (Option.some.inj h)
    have habs : u = n.natAbs * unitsPerOne := by
      have hcast := congrArg Int.natAbs hunits
      rw [Int.natAbs_mul, Int.natAbs_natCast, Binary64.natAbs_signedUnits] at hcast
      exact hcast.symm
    exact Binary64.mod_ne_zero_of_toInt?_eq_none hnone (habs ▸ Nat.mul_mod_left _ _)

/-- Canonical numbers that are equal by value are the same. -/
theorem eq_of_same {a b : Number} (ha : a.IsCanonical) (hb : b.IsCanonical)
    (h : a.same b = true) : a = b := by
  rw [same, beq_iff_eq] at h
  cases a with
  | int n =>
    cases b with
    | int m => rw [compare_eq_iff_eq.mp (Option.some.inj h)]
    | float y => exact absurd hb.toInt?_eq_none (isSome_toInt?_of_compareInt h)
  | float x =>
    cases b with
    | int m =>
      obtain ⟨o, ho, hswap⟩ := Option.map_eq_some_iff.mp h
      have heq : o = .eq := by cases o <;> first | rfl | cases hswap
      exact absurd ha.toInt?_eq_none (isSome_toInt?_of_compareInt (heq ▸ ho))
    | float y => rw [Binary64.eq_of_same ha.toInt?_eq_none h]

end Number

namespace Language

/-- The weight of a target is canonical. -/
theorem isCanonical_splitWeight (target : String) : (splitWeight target).1.IsCanonical := by
  unfold splitWeight
  split
  · exact Number.isCanonical_one
  · split
    · rename_i weight hweight
      exact Number.isCanonical_of_ofNumeral hweight
    · exact Number.isCanonical_one

theorem isCanonical_weight (raw : String) : (Target.ofRaw raw).weight.IsCanonical := by
  have h := isCanonical_splitWeight (Text.trimmed raw.toList)
  unfold Target.ofRaw
  generalize splitWeight (Text.trimmed raw.toList) = parts at h ⊢
  exact h

end Language

end NoteGraph
