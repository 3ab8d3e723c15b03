import NoteGraph.Proofs.Engine.Firing

/-!
# Sharp weights

Enabling and firing both allow for a tolerance: a place covers a weight from the weight
less the tolerance on, and what is left counts as nothing if it is smaller than the
tolerance. Rounding can put the first bound further away than the second, and then a
place is left with less than nothing. A weight is sharp if this cannot happen to it: a
firing that takes finite sharp weights leaves no place with less than nothing.
-/

namespace NoteGraph

/-- A weight that a place can cover only if what is left is at most as good as zero: it
is smaller than the tolerance, or the least that covers it differs from it by less than
the tolerance. -/
def Engine.isSharp {α : Type} [Quantity α] (weight : α) : Bool :=
  Quantity.below weight Quantity.slack ||
    Quantity.below (Quantity.magnitude ((weight - Quantity.slack) - weight)) Quantity.slack

namespace Number

open Binary64

/-! ### Comparisons as floating-point numbers -/

/-- The tolerance as a floating-point number. -/
def tolerance64 : Binary64 := .finite false toleranceUnits fits_toleranceUnits

theorem sub_eq (a b : Number) : a - b = .float (a.toBinary64 - b.toBinary64) := rfl

theorem add_eq (a b : Number) : a + b = .float (a.toBinary64 + b.toBinary64) := rfl

theorem below_slack (a : Number) :
    Quantity.below a Quantity.slack = a.toBinary64.lt tolerance64 := by
  change Number.lt a.toFloat tolerance.toFloat = _
  rw [tolerance_eq]
  rfl

theorem magnitude_eq (a : Number) : Quantity.magnitude a = .float a.toBinary64.abs := rfl

theorem covers_eq (held weight : Number) :
    Engine.covers held weight = (weight.toBinary64 - tolerance64).le held.toBinary64 := by
  change Number.le (.float (weight.toBinary64 - tolerance.toBinary64)) held.toFloat = _
  rw [tolerance_eq]
  rfl

theorem isSharp_iff (weight : Number) :
    Engine.isSharp weight = true ↔ weight.toBinary64.lt tolerance64 = true ∨
      ((weight.toBinary64 - tolerance64) - weight.toBinary64).abs.lt tolerance64 = true := by
  rw [Engine.isSharp, below_slack, below_slack, Bool.or_eq_true, magnitude_eq, sub_eq, sub_eq]
  change _ ∨ ((weight.toBinary64 - tolerance.toBinary64) - _).abs.lt _ = true ↔ _
  rw [tolerance_eq]
  rfl

/-! ### Taking a weight -/

/-- A finite difference is as good as zero if it is small once it is rounded. -/
theorem lt_tolerance_iff {n m : Bool} {u v : ℕ} (hu : Fits u) (hv : Fits v) :
    (finite n u hu - finite m v hv).abs.lt tolerance64 = true ↔
      roundUnits (signedUnits n u - signedUnits m v).natAbs 1 < toleranceUnits := by
  rw [abs_sub_finite, tolerance64, lt_ofUnitRatio]

/-- What a place is left with after it covers a sharp weight is not negative, or as good
as zero. -/
theorem nonNeg_or_small_of_sharp {held weight : Binary64} (hheld : held.NonNeg)
    (hfinite : weight.isFinite = true) (hcovers : (weight - tolerance64).le held = true)
    (hsharp : weight.lt tolerance64 = true ∨
      ((weight - tolerance64) - weight).abs.lt tolerance64 = true) :
    (held - weight).NonNeg ∨ (held - weight).abs.lt tolerance64 = true := by
  cases weight with
  | infinite => cases hfinite
  | undefined => cases hfinite
  | finite m v hv =>
    cases hheld with
    | infinite => exact Or.inl .infinite
    | @finite n u hu hpos =>
      rcases le_or_gt (signedUnits m v) (signedUnits n u) with hle | hgt
      · exact Or.inl (nonNeg_sub_finite hu hv hle)
      · right
        rw [lt_tolerance_iff]
        rcases hsharp with hsharp | hsharp
        · -- the weight itself is small, and what is missing is less
          rw [tolerance64, lt_finite, signedUnits_false] at hsharp
          have hv' : signedUnits m v = v := by
            cases m with
            | false => rfl
            | true => rw [signedUnits_true] at hgt; omega
          rw [hv'] at hsharp hgt ⊢
          have hround : roundUnits (signedUnits n u - (v : ℤ)).natAbs 1 ≤ v :=
            roundUnits_le_of_le_fits (by omega) hv
          omega
        · -- what is missing is at most what is missing from the least that covers it
          cases hleast : finite m v hv - tolerance64 with
          | infinite b =>
            rw [hleast] at hsharp
            cases b <;> cases hsharp
          | undefined =>
            rw [hleast] at hsharp
            cases hsharp
          | finite k c hc =>
            rw [hleast] at hsharp hcovers
            rw [lt_tolerance_iff] at hsharp
            rw [le_finite] at hcovers
            refine lt_of_le_of_lt (roundUnits_mono ?_) hsharp
            omega

/-- The least that covers a weight that is not sharp is a number above zero, and taking
the weight from it leaves less than nothing. -/
theorem least_of_not_sharp {u : ℕ} (hu : Fits u)
    (hsharp : Engine.isSharp (Number.float (.finite false u hu)) = false) :
    ∃ c hc, finite false u hu - tolerance64 = .finite false c hc ∧
      ¬(finite false c hc - finite false u hu).NonNeg ∧
      (finite false c hc - finite false u hu).abs.lt tolerance64 = false := by
  rw [← Bool.not_eq_true, isSharp_iff, not_or, Bool.not_eq_true, Bool.not_eq_true] at hsharp
  obtain ⟨hlarge, hmissing⟩ := hsharp
  have hle : toleranceUnits ≤ u := by
    rw [← Bool.not_eq_true] at hlarge
    have := mt (lt_finite hu fits_toleranceUnits).mpr hlarge
    rw [signedUnits_false, signedUnits_false] at this
    omega
  have hround : roundUnits (u - toleranceUnits) 1 ≤ u :=
    roundUnits_le_of_le_fits (Nat.sub_le _ _) hu
  have hleast : finite false u hu - tolerance64 = .finite false
      (roundUnits (u - toleranceUnits) 1) (fits_roundUnits (hround.trans_lt hu.2)) := by
    rw [tolerance64, sub_finite, signedUnits_false, ← Int.natCast_sub hle, ofUnits_natCast,
      ofUnitRatio_of_lt false (hround.trans_lt hu.2)]
  rw [toBinary64, hleast] at hmissing
  refine ⟨_, _, hleast, fun hnonNeg => ?_, hmissing⟩
  -- a difference that is not negative would be zero, and so as good as zero
  rw [sub_finite, nonNeg_ofUnits, signedUnits_false] at hnonNeg
  rw [← Bool.not_eq_true, lt_tolerance_iff, signedUnits_false, signedUnits_false] at hmissing
  have hzero : ((roundUnits (u - toleranceUnits) 1 : ℕ) - (u : ℤ)).natAbs = 0 := by omega
  rw [hzero, roundUnits_of_fits fits_zero] at hmissing
  exact hmissing toleranceUnits_pos

/-- A number covers itself. -/
theorem sub_tolerance_le_self {u : ℕ} (hu : Fits u) :
    (finite false u hu - tolerance64).le (finite false u hu) = true := by
  rw [tolerance64, sub_finite, signedUnits_false]
  exact ofUnits_le_finite hu (by omega)

end Number

/-! ### Counts along runs -/

/-- No place of a marking holds less than nothing. -/
def Marking.NonNeg (m : Marking Number) : Prop := ∀ place ∈ m, Number.le 0 place.2 = true

namespace Engine

/-- An engine all of whose summed input weights are finite and sharp. -/
def TakesSharp [EntryOrder] (e : Engine Number) : Prop :=
  ∀ t, ∀ arc ∈ e.net.inputWeights t, arc.2.toBinary64.isFinite = true ∧ isSharp arc.2 = true

theorem isSharp_toBinary64 (weight : Number) :
    isSharp (Number.float weight.toBinary64) = isSharp weight := rfl

theorem nonNeg_settle {e : Engine Number} (h : e.accounting = false) {value : Number} :
    (e.settle value).toBinary64.NonNeg ↔
      value.toBinary64.NonNeg ∨ value.toBinary64.abs.lt Number.tolerance64 = true := by
  rw [settle_eq h, Number.magnitude_eq, Number.below_slack, Number.toBinary64]
  split_ifs with hsmall
  · exact iff_of_true (Number.Binary64.nonNeg_ofInt.mpr le_rfl) (Or.inr hsmall)
  · exact Number.nonNeg_ofWhole.trans (or_iff_left hsmall).symm

theorem settle_infinite {e : Engine Number} (h : e.accounting = false) :
    e.settle (.float (.infinite false)) = .float (.infinite false) := by
  rw [settle_eq h, Number.magnitude_eq, Number.below_slack]
  rfl

theorem nonNeg_get {m : Marking Number} (h : m.NonNeg) (place : String) :
    (m.get place).toBinary64.NonNeg := by
  rw [Marking.get]
  cases hm : m.lookup place with
  | none => exact Number.Binary64.nonNeg_ofInt.mpr le_rfl
  | some value => exact Number.le_zero_iff.mp (h _ (Keyed.mem_of_lookup_eq_some hm))

theorem nonNeg_of_get {m : Marking Number} (hn : (m.map (·.1)).Nodup)
    (h : ∀ place ∈ m.map (·.1), (m.get place).toBinary64.NonNeg) : m.NonNeg := by
  rintro ⟨place, value⟩ hmem
  have hget : m.get place = value := Marking.get_of_mem hn hmem
  exact Number.le_zero_iff.mpr (hget ▸ h place (List.mem_map.mpr ⟨_, hmem, rfl⟩))

theorem nonNeg_afterTaking [EntryOrder] {e : Engine Number} (h : e.accounting = false)
    (hsharp : e.TakesSharp) {m : Marking Number} (hm : m.NonNeg) {t : String}
    (ht : e.isEnabledIn m t = true) (place : String) :
    (e.afterTaking m t place).toBinary64.NonNeg := by
  have hheld := nonNeg_get hm place
  unfold afterTaking
  split
  · rename_i weight hw
    have harc := Keyed.mem_of_lookup_eq_some hw
    obtain ⟨hfinite, hs⟩ := hsharp t _ harc
    have hcovers := ((isEnabledIn_iff h).mp ht).2.2 _ harc
    rw [Number.covers_eq] at hcovers
    exact (nonNeg_settle h).mpr (Number.nonNeg_or_small_of_sharp hheld hfinite hcovers
      ((Number.isSharp_iff weight).mp hs))
  · exact hheld

/-- A firing leaves no place with less than nothing. -/
theorem nonNeg_successor [EntryOrder] {g : Graph} {e : Engine Number} (ho : e.IsOf g false)
    (hc : e.Covers) (hsharp : e.TakesSharp) (hm : e.marking.NonNeg) {t : String}
    (ht : e.isEnabled t = true) : (e.successor e.marking t).NonNeg := by
  obtain ⟨hmode, _, -, hnet⟩ := ho
  have hkeys := map_fst_successor hmode hc t
  refine nonNeg_of_get (hkeys ▸ hnet.nodup) fun place _ => ?_
  have htaken := nonNeg_afterTaking hmode hsharp hm ht place
  rw [get_successor hmode hnet.nodup]
  split
  · rename_i weight hw
    have hweight := hnet.zero_lt_weight (Keyed.mem_of_lookup_eq_some hw)
    exact (nonNeg_settle hmode).mpr
      (Or.inl (Number.Binary64.nonNeg_add htaken (Number.nonNeg_of_zero_lt hweight)))
  · exact htaken

end Engine

/-- A token net starts with no place below zero. -/
theorem Engine.nonNeg_of_isFresh [EntryOrder] {g : Graph} {e : Engine Number}
    (ho : e.IsOf g false) (hfresh : e.IsFresh) : e.marking.NonNeg := by
  obtain ⟨hmode, tokens, htokens, hnet⟩ := ho
  rw [hfresh, hmode, Engine.initialMarking_eq]
  intro held hheld
  obtain ⟨place, hp, rfl⟩ := List.mem_map.mp hheld
  exact Number.le_zero_iff.mpr (Number.nonNeg_ofWhole.mpr (hnet.nonNeg_tokens htokens hp))

/-- It starts with finite counts. -/
theorem Engine.isFinite_get_of_isFresh [EntryOrder] {g : Graph} {e : Engine Number}
    (ho : e.IsOf g false) (hfresh : e.IsFresh) (place : String) :
    (e.marking.get place).toBinary64.isFinite = true := by
  obtain ⟨hmode, tokens, -, hnet⟩ := ho
  rw [Marking.get]
  cases hm : e.marking.lookup place with
  | none =>
    change (Number.Binary64.ofInt 0).isFinite = true
    decide +kernel
  | some value =>
    have hmem := Keyed.mem_of_lookup_eq_some hm
    rw [hfresh, hmode, Engine.initialMarking_eq] at hmem
    obtain ⟨p, hp, heq⟩ := List.mem_map.mp hmem
    obtain ⟨-, rfl⟩ := Prod.mk.inj heq
    have hfinite := hnet.finite p hp
    rw [hnet.places] at hp
    obtain ⟨id, -, rfl⟩ := List.mem_map.mp hp
    exact Number.isFinite_ofWhole hfinite

end NoteGraph
