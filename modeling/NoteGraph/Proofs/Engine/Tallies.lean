import NoteGraph.Proofs.Engine.InTurn

/-!
# Counts that stay numbers

Counts are floating-point numbers, and infinity less infinity is no number. A place of a token net
comes to hold no number only if an infinite sum of weights is taken from it: as long as the summed
input weights are finite, every count is a finite number or infinitely large, and stays one when a
transition fires.
-/

namespace NoteGraph

/-! ### Sums and differences -/

namespace Number

open Binary64

theorem isNumber_iff {n : Number} : Quantity.isNumber n = true ↔ n.toBinary64 ≠ .undefined := by
  change n.toBinary64.le n.toBinary64 = true ↔ _
  rw [le_iff]
  simp

/-- A count that is finite or infinitely large. -/
def IsTally (x : Binary64) : Prop := x ≠ .undefined ∧ (infinite true).extent < x.extent

theorem isTally_finite (n : Bool) {u : ℕ} (hu : Fits u) : IsTally (finite n u hu) :=
  ⟨finite_ne_undefined n hu, lt_extent_finite n hu⟩

theorem isTally_infinite : IsTally (.infinite false) :=
  ⟨infinite_ne_undefined false, extent_infinite_lt⟩

theorem isTally_of_isFinite {x : Binary64} (h : x.isFinite = true) : IsTally x := by
  cases x with
  | finite n u hu => exact isTally_finite n hu
  | infinite | undefined => cases h

/-- A sum of finite numbers that is not below a finite number. -/
theorem isTally_finite_add_finite {n m : Bool} {u v w : ℕ} (hu : Fits u) (hv : Fits v) (hw : Fits w)
    (h : -(w : ℤ) ≤ signedUnits n u + signedUnits m v) :
    IsTally (finite n u hu + finite m v hv) := by
  refine ⟨finite_add_finite_ne_undefined n m hu hv, ?_⟩
  have hleast : (ofUnits (-(w : ℤ))).extent = -w :=
    extent_ofUnits_of_fits (by rwa [Int.natAbs_neg, Int.natAbs_natCast])
  calc (infinite true).extent < (finite true w hw).extent := lt_extent_finite true hw
    _ = (ofUnits (-(w : ℤ))).extent := by rw [hleast, extent_finite, signedUnits_true]
    _ ≤ (finite n u hu + finite m v hv).extent := by
      rw [extent_finite_add_finite]
      exact extent_ofUnits_mono h

theorem IsTally.add {x w : Binary64} (hx : IsTally x) (hw : w.NonNeg) : IsTally (x + w) := by
  cases x with
  | undefined => exact absurd rfl hx.1
  | infinite n =>
    cases n with
    | true => exact absurd hx.2 (lt_irrefl _)
    | false => cases hw <;> exact isTally_infinite
  | finite n u hu =>
    cases hw with
    | infinite => exact isTally_infinite
    | @finite m v hv hpos =>
      refine isTally_finite_add_finite hu hv hu ?_
      have hunits := natAbs_signedUnits n u
      omega

/-- What is left of a count that covers a finite weight. -/
theorem IsTally.sub {x w : Binary64} (hx : IsTally x) (hw : w.NonNeg) (hfinite : w.isFinite = true)
    (hcovers : (w - tolerance64).le x = true) : IsTally (x - w) := by
  cases hw with
  | infinite => cases hfinite
  | @finite m v hv hpos =>
    cases x with
    | undefined => exact absurd rfl hx.1
    | infinite n =>
      cases n with
      | true => exact absurd hx.2 (lt_irrefl _)
      | false => exact isTally_infinite
    | finite n u hu =>
      have hneg := signedUnits_not m v
      change IsTally (finite n u hu + finite (!m) v hv)
      rcases le_or_gt 0 (signedUnits n u) with hheld | hheld
      · refine isTally_finite_add_finite hu hv hv ?_
        have hunits := natAbs_signedUnits m v
        omega
      · -- a count below zero covers only what the tolerance makes good
        have hle := (le_iff.mp hcovers).2.2
        change (finite m v hv + finite true toleranceUnits fits_toleranceUnits).extent ≤
          signedUnits n u at hle
        rw [extent_finite_add_finite, signedUnits_true] at hle
        have hsmall : signedUnits m v < toleranceUnits := by
          by_contra hlarge
          have hzero : (ofUnits 0).extent = 0 := extent_ofUnits_of_fits fits_zero
          have hmono := extent_ofUnits_mono (show 0 ≤ signedUnits m v + -toleranceUnits by omega)
          omega
        have hleast : (ofUnits (-(toleranceUnits : ℤ))).extent = -toleranceUnits :=
          extent_ofUnits_of_fits (by
            rw [Int.natAbs_neg, Int.natAbs_natCast]
            exact fits_toleranceUnits)
        have hmono := extent_ofUnits_mono
          (show -(toleranceUnits : ℤ) ≤ signedUnits m v + -toleranceUnits by omega)
        have htwice := two_mul_toleranceUnits_lt
        refine isTally_finite_add_finite hu hv (w := unitsPerOne) ?_ ?_
        · simpa using fits_mul_unitsPerOne (k := 1) (by norm_num)
        · omega

end Number

/-! ### Markings -/

/-- A marking all of whose counts are finite or infinitely large. -/
def Marking.HoldsTallies (m : Marking Number) : Prop :=
  ∀ place, Number.IsTally (m.get place).toBinary64

namespace Engine

open Number

variable {e : Engine Number}

theorem isTally_settle (h : e.accounting = false) {value : Number}
    (hvalue : IsTally value.toBinary64) : IsTally (e.settle value).toBinary64 := by
  refine ⟨mt (settle_eq_undefined_iff h).mp hvalue.1, ?_⟩
  rw [extent_settle h hvalue.1]
  split_ifs
  · have hzero := (isTally_finite false Binary64.fits_zero).2
    rwa [Binary64.extent_finite, Binary64.signedUnits_false, Nat.cast_zero] at hzero
  · exact hvalue.2

theorem isTally_drawn (h : e.accounting = false) {held : Number} {weight : Option Number}
    (hheld : IsTally held.toBinary64)
    (hweight : ∀ w ∈ weight, w.toBinary64.NonNeg ∧ w.toBinary64.isFinite = true ∧
      covers held w = true) : IsTally (e.drawn held weight).toBinary64 := by
  cases weight with
  | none => exact hheld
  | some w =>
    obtain ⟨hpos, hfinite, hcovers⟩ := hweight w rfl
    rw [covers_eq] at hcovers
    exact isTally_settle h (hheld.sub hpos hfinite hcovers)

theorem isTally_filled (h : e.accounting = false) {held : Number} {weight : Option Number}
    (hheld : IsTally held.toBinary64) (hweight : ∀ w ∈ weight, w.toBinary64.NonNeg) :
    IsTally (e.filled held weight).toBinary64 := by
  cases weight with
  | none => exact hheld
  | some w => exact isTally_settle h (hheld.add (hweight w rfl))

variable [EntryOrder]

/-- An engine all of whose summed input weights are finite. -/
def TakesFinite (e : Engine Number) : Prop :=
  ∀ t ∈ e.net.transitionNames, ∀ arc ∈ e.net.inputWeights t, arc.2.toBinary64.isFinite = true

instance (e : Engine Number) : Decidable e.TakesFinite :=
  inferInstanceAs (Decidable (∀ t ∈ e.net.transitionNames, ∀ arc ∈ e.net.inputWeights t, _ = _))

variable {g : Graph}

theorem holdsTallies_of_isFresh (ho : e.IsOf g false) (hfresh : e.IsFresh) :
    e.marking.HoldsTallies :=
  fun place => isTally_of_isFinite (isFinite_get_of_isFresh ho hfresh place)

/-- What a transition that can fire leads to. -/
theorem holdsTallies_successor (ho : e.IsOf g false) (hfinite : e.TakesFinite)
    {m : Marking Number} (hm : m.HoldsTallies) {t : String} (ht : e.isEnabledIn m t = true) :
    (e.successor m t).HoldsTallies := by
  obtain ⟨hmode, _, -, hnet⟩ := ho
  intro place
  rw [get_successor_eq hmode hnet.nodup]
  refine isTally_filled hmode (isTally_drawn hmode (hm place) fun w hw => ?_) fun w hw => ?_
  · have hmem := Keyed.mem_of_lookup_eq_some hw
    exact ⟨nonNeg_of_zero_lt (hnet.zero_lt_weight hmem),
      hfinite t (mem_transitionNames_of_isEnabledIn ht) _ hmem,
      ((isEnabledIn_iff hmode).mp ht).2.2 _ hmem⟩
  · exact nonNeg_of_zero_lt (hnet.zero_lt_weight (Keyed.mem_of_lookup_eq_some hw))

end Engine

/-- Where the summed input weights are finite, all counts stay finite or infinitely large. -/
theorem Simulation.holdsTallies_run [EntryOrder] {g : Graph} {tokens : Option Number}
    {mode : Option Bool} {settings : SimulationSettings} {s : Simulation}
    (hs : (start g tokens mode settings).1 = .ok s) (htoken : s.engine.accounting = false)
    (hfinite : ∀ e : Engine Number, e.IsOf g false → e.TakesFinite) (requests : List Request) :
    (s.run requests).engine.marking.HoldsTallies := by
  refine (run_induction (P := fun e => e.marking.HoldsTallies) hs ?_ ?_ requests).2
  · intro e ho hfresh
    rw [htoken] at ho
    exact Engine.holdsTallies_of_isFresh ho hfresh
  · intro e t ho hm
    rw [htoken] at ho
    cases ht : e.isEnabled t with
    | false => rwa [Engine.fire_of_not_isEnabled ht]
    | true =>
      rw [Engine.fire_of_isEnabled ht]
      exact Engine.holdsTallies_successor ho (hfinite e ho) hm ht

end NoteGraph
