import Mathlib.Algebra.BigOperators.Group.Finset.Piecewise
import Mathlib.Algebra.BigOperators.Group.Finset.Sigma
import Mathlib.Algebra.BigOperators.Ring.Finset
import Mathlib.Algebra.Order.BigOperators.Group.List
import NoteGraph.Graph.Assembly
import NoteGraph.Net.RowSort
import NoteGraph.Operation.OfText
import NoteGraph.Proofs.Engine.Sharp
import NoteGraph.Proofs.Number.Whole

/-!
# The state equation

In a token net of whole numbers a place holds what it held at the start and, for every
transition, what a firing adds to it as often as the transition has fired. Counts are
floating-point numbers, so this holds as long as it gives no place more than `2 ^ 53`;
one token more is lost to rounding.
-/

namespace NoteGraph

/-! ### Exact sums -/

namespace Net

/-- The exact sum of the weights between a place and a transition in one direction. -/
def flow (net : Net Number) (direction : Direction) (place t : String) : ℤ :=
  ((net.arcWeights direction place t).map Number.value).sum

/-- What a firing of a transition adds to a place. -/
def gain (net : Net Number) (t place : String) : ℤ :=
  net.flow .output place t - net.flow .input place t

end Net

theorem Number.value_nonneg {n : Number} (h : n.IsWhole) (hn : n.toBinary64.NonNeg) :
    0 ≤ n.value := by
  cases n with
  | int n => exact Binary64.nonNeg_ofInt.mp hn
  | float x =>
    obtain ⟨a, ha⟩ := Option.isSome_iff_exists.mp h
    rw [value_of_toInt? ha]
    exact (nonNeg_of_toInt? ha).mp hn

theorem Number.toInt?_add {m n : Number} {a b : ℤ} (hm : m.toBinary64.toInt? = some a)
    (hn : n.toBinary64.toInt? = some b) (h : (a + b).natAbs ≤ 2 ^ 53) :
    (m + n).toBinary64.toInt? = some (a + b) := by
  rw [Number.add_eq]
  exact Binary64.toInt?_add hm hn h

/-- Summing whole numbers one after another is exact if their sum is. -/
theorem Number.toInt?_foldl_add {rest : List Number} {first : Number} {a : ℤ}
    (hfirst : first.toBinary64.toInt? = some a) (ha : 0 ≤ a)
    (hrest : ∀ w ∈ rest, w.IsWhole ∧ 0 ≤ w.value)
    (hsum : a + (rest.map Number.value).sum ≤ 2 ^ 53) :
    (rest.foldl (· + ·) first).toBinary64.toInt? = some (a + (rest.map Number.value).sum) := by
  induction rest generalizing first a with
  | nil => simpa using hfirst
  | cons w rest ih =>
    obtain ⟨⟨hw, hpos⟩, hmore⟩ := List.forall_mem_cons.mp hrest
    have hmorePos : 0 ≤ (rest.map Number.value).sum :=
      List.sum_nonneg (by simpa using fun w hmem => (hmore w hmem).2)
    rw [List.map_cons, List.sum_cons, ← add_assoc] at hsum ⊢
    have hadd : (first + w).toBinary64.toInt? = some (a + w.value) :=
      Number.toInt?_add hfirst (Number.toInt?_of_isWhole hw (by omega)) (by omega)
    exact ih hadd (by omega) hmore hsum

namespace Net

variable {net : Net Number}

theorem flow_nonneg (hpos : ∀ a ∈ net.arcs, 0 ≤ a.weight.value) (direction : Direction)
    (place t : String) : 0 ≤ net.flow direction place t := by
  refine List.sum_nonneg fun v hv => ?_
  obtain ⟨w, hw, rfl⟩ := List.mem_map.mp hv
  obtain ⟨a, ha, rfl⟩ := Net.mem_arcWeights hw
  exact hpos a ha

variable [EntryOrder]

theorem sum_value_addends (net : Net Number) (direction : Direction) (place t : String) :
    ((net.addends direction place t).map Number.value).sum = net.flow direction place t :=
  ((net.addends_perm direction place t).map _).sum_eq

/-- The summed weight of a place is exact. -/
theorem toInt?_of_mem_weights (hwhole : ∀ a ∈ net.arcs, a.weight.IsWhole)
    (hpos : ∀ a ∈ net.arcs, 0 ≤ a.weight.value) {direction : Direction} {place t : String}
    {weight : Number} (h : (place, weight) ∈ net.weights direction t)
    (hflow : net.flow direction place t ≤ 2 ^ 53) :
    weight.toBinary64.toInt? = some (net.flow direction place t) := by
  obtain ⟨-, first, rest, hw, rfl⟩ := Net.mem_weights.mp h
  have harc : ∀ w ∈ first :: rest, w.IsWhole ∧ 0 ≤ w.value := by
    intro w hmem
    obtain ⟨a, ha, rfl⟩ := Net.mem_addends (hw ▸ hmem)
    exact ⟨hwhole a ha, hpos a ha⟩
  obtain ⟨⟨hfirst, hfirstPos⟩, hrest⟩ := List.forall_mem_cons.mp harc
  rw [← sum_value_addends, hw, List.map_cons, List.sum_cons] at hflow ⊢
  have hrestPos : 0 ≤ (rest.map Number.value).sum :=
    List.sum_nonneg (by simpa using fun w hmem => (hrest w hmem).2)
  exact Number.toInt?_foldl_add (Number.toInt?_of_isWhole hfirst (by omega)) hfirstPos hrest hflow

/-- A place without a summed weight has no arcs. -/
theorem flow_of_lookup_eq_none (hn : net.placeNames.Nodup) {direction : Direction}
    {place t : String} (hp : place ∈ net.placeNames)
    (h : (net.weights direction t).lookup place = none) : net.flow direction place t = 0 := by
  rw [← sum_value_addends]
  cases hw : net.addends direction place t with
  | nil => rfl
  | cons first rest =>
    have hmem : (place, rest.foldl (· + ·) first) ∈ net.weights direction t :=
      Net.mem_weights.mpr ⟨hp, first, rest, hw, rfl⟩
    rw [Keyed.lookup_eq_some_of_mem (Net.nodup_weights hn direction t) hmem] at h
    cases h

end Net

namespace Number

open Binary64

/-! ### The tolerance and whole numbers -/

theorem eq_zero_of_abs_lt {x : Binary64} {a : ℤ} (hx : x.toInt? = some a)
    (h : x.abs.lt tolerance64 = true) : a = 0 := by
  obtain ⟨n, k, hk, rfl, rfl⟩ := toInt?_eq_some hx
  have hlt : signedUnits false (k * unitsPerOne) < signedUnits false toleranceUnits :=
    (lt_finite hk fits_toleranceUnits).mp h
  rw [signedUnits_false, signedUnits_false, Int.ofNat_lt] at hlt
  rw [eq_zero_of_mul_lt (hlt.trans toleranceUnits_lt)]
  cases n <;> rfl

theorem sub_tolerance_le_iff {held weight : Binary64} {a b : ℤ} (hheld : held.toInt? = some a)
    (hweight : weight.toInt? = some b) (ha : 0 ≤ a) (hb : 0 ≤ b) (hreach : b ≤ 2 ^ 53) :
    (weight - tolerance64).le held = true ↔ b ≤ a := by
  obtain ⟨n, k, hk, rfl, hak⟩ := toInt?_eq_some hheld
  obtain ⟨m, l, hl, rfl, hbl⟩ := toInt?_eq_some hweight
  obtain ⟨i, rfl⟩ := Int.eq_ofNat_of_zero_le ha
  obtain ⟨j, rfl⟩ := Int.eq_ofNat_of_zero_le hb
  have hsub : finite m (l * unitsPerOne) hl - tolerance64 =
      ofUnits (j * unitsPerOne - toleranceUnits) := by
    rw [tolerance64, finite_sub_finite, signedUnits_mul, signedUnits_false, ← hbl,
      if_neg (mul_sub_ne_zero j toleranceUnits_pos two_mul_toleranceUnits_lt)]
  rw [hsub]
  rcases Nat.eq_zero_or_pos j with rfl | hj
  · -- the tolerance is all that is missing
    have hneg : decide (-(toleranceUnits : ℤ) < 0) = true :=
      decide_eq_true (neg_neg_of_pos (Int.natCast_pos.mpr toleranceUnits_pos))
    have hleast : ofUnits (((0 : ℕ) : ℤ) * unitsPerOne - toleranceUnits) =
        finite true toleranceUnits fits_toleranceUnits := by
      rw [Nat.cast_zero, zero_mul, zero_sub, ofUnits, hneg, Int.natAbs_neg, Int.natAbs_natCast,
        ofUnitRatio_of_fits]
    rw [hleast, le_finite, signedUnits_true, signedUnits_mul, ← hak]
    exact iff_of_true ((neg_nonpos.mpr (Int.natCast_nonneg _)).trans
      (Int.mul_nonneg ha (Int.natCast_nonneg _))) ha
  · have hle : toleranceUnits ≤ j * unitsPerOne :=
      toleranceUnits_lt.le.trans (Nat.le_mul_of_pos_left _ hj)
    have hj' : j ≤ 2 ^ 53 := by exact_mod_cast hreach
    have hround := roundUnits_le_of_le_fits (Nat.sub_le (j * unitsPerOne) toleranceUnits)
      (fits_mul_unitsPerOne hj')
    have hcast : (j : ℤ) * unitsPerOne - toleranceUnits =
        ((j * unitsPerOne - toleranceUnits : ℕ) : ℤ) := by
      rw [Int.natCast_sub hle, Int.natCast_mul]
    rw [hcast, ofUnits_natCast,
      ofUnitRatio_of_lt false (hround.trans_lt (fits_mul_unitsPerOne hj').2), le_finite,
      signedUnits_false, signedUnits_mul, ← hak, ← Int.natCast_mul, Int.ofNat_le, Int.ofNat_le]
    exact roundUnits_sub_le_iff hj' toleranceUnits_pos two_mul_toleranceUnits_lt

end Number

/-! ### One firing -/

namespace Engine

variable {e : Engine Number}

theorem settle_of_toInt? (h : e.accounting = false) {value : Number} {a : ℤ}
    (hv : value.toBinary64.toInt? = some a) : e.settle value = .int a := by
  rw [settle_eq h, Number.magnitude_eq, Number.below_slack]
  split_ifs with hsmall
  · rw [Number.eq_zero_of_abs_lt hv hsmall]
    rfl
  · exact Number.ofWhole_of_toInt? hv

theorem covers_iff_of_toInt? {held weight : Number} {a b : ℤ}
    (hheld : held.toBinary64.toInt? = some a) (hweight : weight.toBinary64.toInt? = some b)
    (ha : 0 ≤ a) (hb : 0 ≤ b) (hreach : b ≤ 2 ^ 53) :
    covers held weight = true ↔ b ≤ a := by
  rw [Number.covers_eq]
  exact Number.sub_tolerance_le_iff hheld hweight ha hb hreach

/-- A token net of whole numbers, in a marking of whole numbers that are exact. -/
structure IsExact (g : Graph) (e : Engine Number) : Prop where
  net : e.IsOf g false
  covers : e.Covers
  whole : ∀ a ∈ e.net.arcs, a.weight.IsWhole
  /-- The summed input weights are exact. -/
  inputs : ∀ t ∈ e.net.transitionNames, ∀ place ∈ e.net.placeNames,
    e.net.flow .input place t ≤ 2 ^ 53
  counts : ∀ place ∈ e.net.placeNames, ∃ k : ℤ, e.marking.get place = .int k ∧ 0 ≤ k ∧ k ≤ 2 ^ 53

namespace IsExact

variable {g : Graph}

theorem nodup (h : e.IsExact g) : e.net.placeNames.Nodup := by
  obtain ⟨-, _, -, hnet⟩ := h.net
  exact hnet.nodup

theorem value_nonneg (h : e.IsExact g) : ∀ a ∈ e.net.arcs, 0 ≤ a.weight.value := by
  obtain ⟨-, _, -, hnet⟩ := h.net
  exact fun a ha =>
    Number.value_nonneg (h.whole a ha) (Number.nonNeg_of_zero_lt (hnet.zero_lt_arc ha))

theorem get_eq (h : e.IsExact g) {place : String} (hp : place ∈ e.net.placeNames) :
    e.marking.get place = .int (e.marking.get place).value ∧ 0 ≤ (e.marking.get place).value ∧
      (e.marking.get place).value ≤ 2 ^ 53 := by
  obtain ⟨k, hk, hbounds⟩ := h.counts place hp
  rw [hk]
  exact ⟨rfl, hbounds⟩

theorem toInt?_get (h : e.IsExact g) {place : String} (hp : place ∈ e.net.placeNames) :
    (e.marking.get place).toBinary64.toInt? = some (e.marking.get place).value := by
  obtain ⟨heq, hpos, hle⟩ := h.get_eq hp
  rw [heq]
  exact Number.Binary64.toInt?_ofInt (by omega)

variable [EntryOrder]

theorem toInt?_weight (h : e.IsExact g) {direction : Direction} {place t : String}
    {weight : Number} (hw : (e.net.weights direction t).lookup place = some weight)
    (hflow : e.net.flow direction place t ≤ 2 ^ 53) :
    weight.toBinary64.toInt? = some (e.net.flow direction place t) :=
  Net.toInt?_of_mem_weights h.whole h.value_nonneg (Keyed.mem_of_lookup_eq_some hw) hflow

theorem input_le (h : e.IsExact g) {t : String} (ht : e.isEnabled t = true) {place : String}
    (hp : place ∈ e.net.placeNames) : e.net.flow .input place t ≤ 2 ^ 53 :=
  h.inputs t (mem_transitionNames_of_isEnabledIn ht) place hp

/-- An enabled transition finds in every place what its arcs take. -/
theorem flow_le (h : e.IsExact g) {t : String} (ht : e.isEnabled t = true) {place : String}
    (hp : place ∈ e.net.placeNames) :
    e.net.flow .input place t ≤ (e.marking.get place).value := by
  obtain ⟨-, hpos, -⟩ := h.get_eq hp
  cases hw : (e.net.weights .input t).lookup place with
  | none =>
    rw [Net.flow_of_lookup_eq_none h.nodup hp hw]
    exact hpos
  | some weight =>
    have hcovers := ((isEnabledIn_iff h.net.mode).mp ht).2.2 _ (Keyed.mem_of_lookup_eq_some hw)
    have hle := h.input_le ht hp
    exact (covers_iff_of_toInt? (h.toInt?_get hp) (h.toInt?_weight hw hle) hpos
      (Net.flow_nonneg h.value_nonneg _ _ _) hle).mp hcovers

theorem afterTaking_eq (h : e.IsExact g) {t : String} (ht : e.isEnabled t = true)
    {place : String} (hp : place ∈ e.net.placeNames) :
    e.afterTaking e.marking t place =
      .int ((e.marking.get place).value - e.net.flow .input place t) := by
  obtain ⟨heq, hpos, hreach⟩ := h.get_eq hp
  rw [afterTaking]
  cases hw : (e.net.inputWeights t).lookup place with
  | none =>
    rw [Net.flow_of_lookup_eq_none h.nodup hp hw, sub_zero]
    exact heq
  | some weight =>
    have hle := h.flow_le ht hp
    have hflow := Net.flow_nonneg h.value_nonneg .input place t
    exact settle_of_toInt? h.net.mode (Number.Binary64.toInt?_sub (h.toInt?_get hp)
      (h.toInt?_weight hw (h.input_le ht hp)) (by omega))

/-- A firing adds to each place what the transition gains there. -/
theorem get_successor (h : e.IsExact g) {t : String} (ht : e.isEnabled t = true)
    {place : String} (hp : place ∈ e.net.placeNames)
    (hreach : (e.marking.get place).value + e.net.gain t place ≤ 2 ^ 53) :
    (e.successor e.marking t).get place =
      .int ((e.marking.get place).value + e.net.gain t place) := by
  have hle := h.flow_le ht hp
  rw [Engine.get_successor h.net.mode h.nodup, h.afterTaking_eq ht hp]
  rw [Net.gain] at hreach ⊢
  cases hw : (e.net.outputWeights t).lookup place with
  | none =>
    rw [Net.flow_of_lookup_eq_none h.nodup hp hw, zero_sub, sub_eq_add_neg]
  | some weight =>
    have hflow := Net.flow_nonneg h.value_nonneg .output place t
    have hsum : (e.marking.get place).value +
        (e.net.flow .output place t - e.net.flow .input place t) =
          (e.marking.get place).value - e.net.flow .input place t +
            e.net.flow .output place t := by omega
    rw [hsum] at hreach ⊢
    have hleft : (e.marking.get place).value - e.net.flow .input place t ≤ 2 ^ 53 := by omega
    have hadded : e.net.flow .output place t ≤ 2 ^ 53 := by omega
    exact settle_of_toInt? h.net.mode (Number.toInt?_add
      (Number.Binary64.toInt?_ofInt (by omega)) (h.toInt?_weight hw hadded) (by omega))

theorem fire (h : e.IsExact g) {t : String} (ht : e.isEnabled t = true)
    (hreach : ∀ place ∈ e.net.placeNames,
      (e.marking.get place).value + e.net.gain t place ≤ 2 ^ 53) : (e.fire t).IsExact g := by
  have hcovers := h.covers.fire h.net.mode t
  rw [fire_of_isEnabled ht] at hcovers ⊢
  refine ⟨⟨h.net.mode, h.net.net⟩, hcovers, h.whole, h.inputs, fun place hp => ?_⟩
  refine ⟨_, h.get_successor ht hp (hreach place hp), ?_, hreach place hp⟩
  have hle := h.flow_le ht hp
  have hflow := Net.flow_nonneg h.value_nonneg .output place t
  rw [Net.gain]
  omega

end IsExact

/-! ### Runs -/

/-- What the state equation gives for a place after some firings: what it holds, and what
each transition gains there as often as it was fired. -/
def predicted (e : Engine Number) (fired : List String) (place : String) : ℤ :=
  (e.marking.get place).value +
    ∑ t ∈ e.net.transitionNames.toFinset, fired.count t * e.net.gain t place

@[simp] theorem predicted_nil (e : Engine Number) (place : String) :
    e.predicted [] place = (e.marking.get place).value := by
  simp [predicted]

theorem predicted_congr {fired fired' : List String} (h : ∀ t, fired.count t = fired'.count t)
    (place : String) : e.predicted fired place = e.predicted fired' place := by
  simp only [predicted, h]

theorem sum_count_cons {names : Finset String} {t : String} (ht : t ∈ names)
    (fired : List String) (f : String → ℤ) :
    ∑ s ∈ names, ((t :: fired).count s : ℤ) * f s =
      f t + ∑ s ∈ names, (fired.count s : ℤ) * f s := by
  simp only [List.count_cons, Nat.cast_add, add_mul, Finset.sum_add_distrib, beq_iff_eq,
    Nat.cast_ite, Nat.cast_one, Nat.cast_zero, ite_mul, one_mul, zero_mul, Finset.sum_ite_eq,
    if_pos ht]
  exact add_comm _ _

theorem predicted_cons {t : String} (ht : t ∈ e.net.transitionNames) (fired : List String)
    (place : String) :
    e.predicted (t :: fired) place = e.predicted fired place + e.net.gain t place := by
  rw [predicted, sum_count_cons (List.mem_toFinset.mpr ht), predicted]
  omega

variable [EntryOrder]

/-- An engine after some transitions are fired, one after another. -/
def fireAll (e : Engine Number) (ts : List String) : Engine Number := ts.foldl fire e

/-- Those of some transitions that are enabled in their turn. -/
def firings (e : Engine Number) : List String → List String
  | [] => []
  | t :: rest =>
    if e.isEnabled t then t :: (e.fire t).firings rest else (e.fire t).firings rest

/-- The state equation never gives a place more than floating-point numbers can count. -/
def StaysExact (e : Engine Number) (ts : List String) : Prop :=
  ∀ before ∈ ts.inits, ∀ place ∈ e.net.placeNames,
    e.predicted (e.firings before) place ≤ 2 ^ 53

instance (e : Engine Number) (ts : List String) : Decidable (e.StaysExact ts) :=
  inferInstanceAs (Decidable (∀ before ∈ ts.inits, ∀ place ∈ e.net.placeNames, _ ≤ _))

@[simp] theorem fireAll_net (e : Engine Number) (ts : List String) :
    (e.fireAll ts).net = e.net := by
  induction ts generalizing e with
  | nil => rfl
  | cons t rest ih => exact (ih (e.fire t)).trans (fire_net e t)

section Steps

variable {g : Graph} {t : String}

/-- One step of the state equation. -/
theorem IsExact.predicted_fire (h : e.IsExact g) (ht : e.isEnabled t = true) {place : String}
    (hp : place ∈ e.net.placeNames)
    (hreach : (e.marking.get place).value + e.net.gain t place ≤ 2 ^ 53) (fired : List String) :
    (e.fire t).predicted fired place = e.predicted (t :: fired) place := by
  have hget := h.get_successor ht hp hreach
  rw [predicted_cons (mem_transitionNames_of_isEnabledIn ht), predicted, predicted,
    fire_of_isEnabled ht]
  change ((e.successor e.marking t).get place).value + _ = _
  rw [hget, Number.value]
  change _ + ∑ t ∈ e.net.transitionNames.toFinset, (fired.count t : ℤ) * e.net.gain t place = _
  omega

theorem StaysExact.value_le {ts : List String} (hs : e.StaysExact ts) {place : String}
    (hp : place ∈ e.net.placeNames) : (e.marking.get place).value ≤ 2 ^ 53 := by
  have hnil := hs [] (List.mem_inits _ _ |>.mpr List.nil_prefix) place hp
  rwa [firings, predicted_nil] at hnil

theorem StaysExact.value_add_gain_le {rest : List String} (hs : e.StaysExact (t :: rest))
    (ht : e.isEnabled t = true) {place : String} (hp : place ∈ e.net.placeNames) :
    (e.marking.get place).value + e.net.gain t place ≤ 2 ^ 53 := by
  have hone := hs [t] (List.mem_inits _ _ |>.mpr (List.prefix_append [t] rest)) place hp
  rwa [firings, if_pos ht, firings, predicted_cons (mem_transitionNames_of_isEnabledIn ht),
    predicted_nil] at hone

theorem StaysExact.tail {rest : List String} (hs : e.StaysExact (t :: rest))
    (h : e.IsExact g) : (e.fire t).StaysExact rest := by
  intro before hbefore place hp
  have hcons := hs (t :: before)
    ((List.mem_inits _ _).mpr ((List.prefix_cons_inj t).mpr ((List.mem_inits _ _).mp hbefore)))
  rw [fire_net] at hp
  specialize hcons place hp
  rw [firings] at hcons
  cases ht : e.isEnabled t with
  | false =>
    rw [ht, if_neg Bool.false_ne_true, fire_of_not_isEnabled ht] at hcons
    rwa [fire_of_not_isEnabled ht]
  | true =>
    rw [if_pos ht] at hcons
    rwa [h.predicted_fire ht hp (hs.value_add_gain_le ht hp)]

end Steps

theorem IsExact.fireAll {g : Graph} (ts : List String) :
    ∀ {e : Engine Number}, e.IsExact g → e.StaysExact ts → (e.fireAll ts).IsExact g ∧
      ∀ place ∈ e.net.placeNames,
        (e.fireAll ts).marking.get place = .int (e.predicted (e.firings ts) place) := by
  induction ts with
  | nil =>
    intro e h hs
    refine ⟨h, fun place hp => ?_⟩
    rw [firings, predicted_nil]
    exact (h.get_eq hp).1
  | cons t rest ih =>
    intro e h hs
    have htail := hs.tail h
    cases ht : e.isEnabled t with
    | false =>
      rw [Engine.fireAll, List.foldl_cons, firings, ht, if_neg Bool.false_ne_true]
      rw [fire_of_not_isEnabled ht] at htail ⊢
      exact ih h htail
    | true =>
      have hreach : ∀ place ∈ e.net.placeNames,
          (e.marking.get place).value + e.net.gain t place ≤ 2 ^ 53 :=
        fun place hp => hs.value_add_gain_le ht hp
      obtain ⟨hexact, hcounts⟩ := ih (h.fire ht hreach) htail
      refine ⟨hexact, fun place hp => ?_⟩
      rw [firings, if_pos ht, ← h.predicted_fire ht hp (hreach place hp)]
      exact hcounts place (by rwa [fire_net])

/-! ### What follows from the equation -/

theorem StaysExact.of_prefix {ts before : List String} (hs : e.StaysExact ts)
    (h : before <+: ts) : e.StaysExact before := fun start hstart =>
  hs start ((List.mem_inits _ _).mpr (((List.mem_inits _ _).mp hstart).trans h))

theorem firings_subset (ts : List String) :
    ∀ {e : Engine Number}, ∀ t ∈ e.firings ts, t ∈ e.net.transitionNames := by
  induction ts with
  | nil => intro e t ht; cases ht
  | cons s rest ih =>
    intro e t ht
    rw [firings] at ht
    split_ifs at ht with hs
    · rcases List.mem_cons.mp ht with rfl | ht
      · exact mem_transitionNames_of_isEnabledIn hs
      · exact fire_net e s ▸ ih t ht
    · exact fire_net e s ▸ ih t ht

/-- Firings of transitions that are not enabled, or that the net does not have, can be left
out. -/
theorem fireAll_firings (ts : List String) :
    ∀ e : Engine Number, e.fireAll (e.firings ts) = e.fireAll ts := by
  induction ts with
  | nil => intro e; rfl
  | cons t rest ih =>
    intro e
    rw [firings]
    cases ht : e.isEnabled t with
    | true =>
      rw [if_pos rfl]
      exact ih (e.fire t)
    | false =>
      rw [if_neg Bool.false_ne_true]
      have hrest := ih (e.fire t)
      rw [fire_of_not_isEnabled ht] at hrest ⊢
      rw [hrest, fireAll, fireAll, List.foldl_cons, fire_of_not_isEnabled ht]

/-- What a marking holds in all, with a weight for each place. -/
def total {R : Type} [CommRing R] (e : Engine Number) (y : String → R) : R :=
  ∑ place ∈ e.net.placeNames.toFinset, y place * ((e.marking.get place).value : R)

omit [EntryOrder] in
theorem sum_predicted {R : Type} [CommRing R] (e : Engine Number) (y : String → R)
    (fired : List String)
    (hy : ∀ t ∈ e.net.transitionNames,
      ∑ place ∈ e.net.placeNames.toFinset, y place * (e.net.gain t place : R) = 0) :
    ∑ place ∈ e.net.placeNames.toFinset, y place * (e.predicted fired place : R) =
      e.total y := by
  have hzero : ∑ place ∈ e.net.placeNames.toFinset, y place *
      ((∑ t ∈ e.net.transitionNames.toFinset, fired.count t * e.net.gain t place : ℤ) : R) = 0 := by
    calc ∑ place ∈ e.net.placeNames.toFinset, y place *
          ((∑ t ∈ e.net.transitionNames.toFinset, fired.count t * e.net.gain t place : ℤ) : R)
        = ∑ place ∈ e.net.placeNames.toFinset, ∑ t ∈ e.net.transitionNames.toFinset,
            (fired.count t : R) * (y place * (e.net.gain t place : R)) := by
          refine Finset.sum_congr rfl fun place _ => ?_
          push_cast
          rw [Finset.mul_sum]
          exact Finset.sum_congr rfl fun t _ => by ring
      _ = ∑ t ∈ e.net.transitionNames.toFinset, (fired.count t : R) *
            ∑ place ∈ e.net.placeNames.toFinset, y place * (e.net.gain t place : R) := by
          rw [Finset.sum_comm]
          exact Finset.sum_congr rfl fun t _ => (Finset.mul_sum _ _ _).symm
      _ = 0 := Finset.sum_eq_zero fun t ht => by
          rw [hy t (List.mem_toFinset.mp ht), mul_zero]
  simp only [predicted, Int.cast_add, mul_add, Finset.sum_add_distrib, hzero, add_zero, total]

end Engine

/-! ### The equation of a simulation -/

/-- Whole numbers of tokens stay whole in a net. -/
theorem Graph.IsNetOf.isSome_tokens {g : Graph} {tokens : Number} {net : Net Number}
    (h : g.IsNetOf false tokens net) (htokens : tokens.IsWhole) {place : Place Number}
    (hp : place ∈ net.places) : place.tokens.toBinary64.toInt?.isSome = true := by
  have hfinite := h.finite place hp
  rw [h.places] at hp
  obtain ⟨id, -, rfl⟩ := List.mem_map.mp hp
  change (g.seed false tokens id).1.toBinary64.isFinite = true at hfinite
  change (g.seed false tokens id).1.toBinary64.toInt?.isSome = true
  rw [Graph.seed, if_neg Bool.false_ne_true] at hfinite ⊢
  split_ifs at hfinite ⊢ with hseeded
  · cases tokens with
    | int n => exact Number.Binary64.isSome_toInt?_ofInt hfinite
    | float x => exact htokens
  · change Option.isSome (Number.Binary64.toInt? 0) = true
    rw [Number.Binary64.toInt?_zero]
    rfl

namespace Simulation

theorem run_fires [EntryOrder] (s : Simulation) (ts : List String) :
    (s.run (ts.map .fire)).engine = s.engine.fireAll ts := by
  induction ts generalizing s with
  | nil => rfl
  | cons t rest ih => exact ih (s.fire t).1

/-- A simulation of whole numbers starts in a marking of whole numbers. -/
theorem isExact_of_start [EntryOrder] {g : Graph} {tokens : Option Number} {mode : Option Bool}
    {settings : SimulationSettings} {s : Simulation}
    (hs : (start g tokens mode settings).1 = .ok s) (htoken : s.engine.accounting = false)
    (htokens : s.initialTokens.IsWhole) (hweights : ∀ a ∈ s.engine.net.arcs, a.weight.IsWhole)
    (hinputs : ∀ t ∈ s.engine.net.transitionNames, ∀ place ∈ s.engine.net.placeNames,
      s.engine.net.flow .input place t ≤ 2 ^ 53)
    (hreach : ∀ place ∈ s.engine.net.placeNames, (s.engine.marking.get place).value ≤ 2 ^ 53) :
    s.engine.IsExact g := by
  obtain ⟨-, hneg, hnet, hfresh⟩ := isNetOf_of_start hs
  rw [htoken] at hnet
  have ho : s.engine.IsOf g false := ⟨htoken, _, hneg, hnet⟩
  have hcovers := hfresh.covers htoken
  refine ⟨ho, hcovers, hweights, hinputs, fun place hp => ?_⟩
  obtain ⟨held, hheld, rfl⟩ := List.mem_map.mp (hcovers.symm ▸ hp)
  have hget : s.engine.marking.get held.1 = held.2 :=
    Marking.get_of_mem (hcovers.symm ▸ hnet.nodup) hheld
  specialize hreach held.1 hp
  rw [hget] at hreach ⊢
  rw [hfresh, htoken, Engine.initialMarking_eq] at hheld
  obtain ⟨p, hmem, rfl⟩ := List.mem_map.mp hheld
  obtain ⟨a, ha⟩ := Option.isSome_iff_exists.mp (hnet.isSome_tokens htokens hmem)
  have hcount : (Quantity.count p.tokens : Number) = .int a := Number.ofWhole_of_toInt? ha
  have hpos : 0 ≤ a := (Number.nonNeg_of_toInt? ha).mp (hnet.nonNeg_tokens hneg hmem)
  rw [hcount] at hreach
  exact ⟨a, hcount, hpos, hreach⟩

/-- **The state equation**: after any firings a token net of whole numbers lists its places,
and each holds what it held at the start and what every transition gains there as often as
it fired while it was enabled, as long as no sum on the way exceeds `2 ^ 53`. So firings
of other names and of transitions that are not enabled can be left out, two runs with the
same numbers of firings end alike, and a weighting of the places that no transition
changes has a constant total. -/
theorem state_equation [EntryOrder] {g : Graph} {tokens : Option Number} {mode : Option Bool}
    {settings : SimulationSettings} {s : Simulation}
    (hs : (start g tokens mode settings).1 = .ok s) (htoken : s.engine.accounting = false)
    (htokens : s.initialTokens.IsWhole) (hweights : ∀ a ∈ s.engine.net.arcs, a.weight.IsWhole)
    (hinputs : ∀ t ∈ s.engine.net.transitionNames, ∀ place ∈ s.engine.net.placeNames,
      s.engine.net.flow .input place t ≤ 2 ^ 53)
    {ts : List String} (hexact : s.engine.StaysExact ts) :
    (s.run (ts.map .fire)).engine.marking.map (·.1) = s.engine.net.placeNames ∧
      (∀ place ∈ s.engine.net.placeNames, (s.run (ts.map .fire)).engine.marking.get place =
        .int ((s.engine.marking.get place).value + ∑ t ∈ s.engine.net.transitionNames.toFinset,
          (s.engine.firings ts).count t *
            (s.engine.net.flow .output place t - s.engine.net.flow .input place t))) ∧
      (∀ t ∈ s.engine.firings ts, t ∈ s.engine.net.transitionNames) ∧
      (s.run ((s.engine.firings ts).map .fire)).engine = (s.run (ts.map .fire)).engine ∧
      (∀ ts', s.engine.StaysExact ts' →
        (∀ t, (s.engine.firings ts').count t = (s.engine.firings ts).count t) →
        (s.run (ts'.map .fire)).engine.marking = (s.run (ts.map .fire)).engine.marking) ∧
      ∀ (R : Type) [CommRing R] (y : String → R),
        (∀ t ∈ s.engine.net.transitionNames, ∑ place ∈ s.engine.net.placeNames.toFinset,
          y place * ((s.engine.net.flow .output place t -
            s.engine.net.flow .input place t : ℤ) : R) = 0) →
        ∀ before, before <+: ts →
          (s.run (before.map .fire)).engine.total y = s.engine.total y := by
  have hstart := isExact_of_start hs htoken htokens hweights hinputs
    fun place hp => hexact.value_le hp
  have hcounts : ∀ ts', s.engine.StaysExact ts' → (s.engine.fireAll ts').IsExact g ∧
      ∀ place ∈ s.engine.net.placeNames, (s.engine.fireAll ts').marking.get place =
        .int (s.engine.predicted (s.engine.firings ts') place) :=
    fun ts' h => hstart.fireAll ts' h
  have hkeys : ∀ ts', s.engine.StaysExact ts' →
      (s.engine.fireAll ts').marking.map (·.1) = s.engine.net.placeNames := fun ts' h =>
    (hcounts ts' h).1.covers.trans (by rw [Engine.fireAll_net])
  simp only [run_fires]
  refine ⟨hkeys ts hexact, (hcounts ts hexact).2, Engine.firings_subset ts,
    Engine.fireAll_firings ts s.engine, ?_, ?_⟩
  · intro ts' hexact' hsame
    have hkeys' := hkeys ts' hexact'
    refine Marking.ext_get (hkeys'.symm ▸ hstart.nodup) (hkeys'.trans (hkeys ts hexact).symm)
      fun place hp => ?_
    rw [hkeys'] at hp
    rw [(hcounts ts' hexact').2 place hp, (hcounts ts hexact).2 place hp,
      Engine.predicted_congr hsame]
  · intro R _ y hy before hbefore
    have hb := hexact.of_prefix hbefore
    rw [← s.engine.sum_predicted y (s.engine.firings before) hy, Engine.total,
      Engine.fireAll_net]
    refine Finset.sum_congr rfl fun place hp => ?_
    rw [(hcounts before hb).2 place (List.mem_toFinset.mp hp), Number.value]

end Simulation

/-- A transition that takes two tokens from a place, puts one back and one elsewhere. -/
def halvingGraph : Graph :=
  .ofOperations (operationsOf
    "# t [Transition]\n<has prior_state> 2 p;\n<has post_state> p;\n<has post_state> q;")

theorem state_equation_halvingGraph :
    ∃ s, (Simulation.start halvingGraph (some (.int 3)) none {}).1 = .ok s ∧
      (s.engine.accounting = false ∧ s.initialTokens.IsWhole ∧
        (∀ a ∈ s.engine.net.arcs, a.weight.IsWhole) ∧
        (∀ t ∈ s.engine.net.transitionNames, ∀ place ∈ s.engine.net.placeNames,
          s.engine.net.flow .input place t ≤ 2 ^ 53) ∧
        s.engine.StaysExact ["t", "u", "t", "t"]) ∧
      (s.run (["t", "u", "t", "t"].map .fire)).engine.marking.map (·.1) =
        s.engine.net.placeNames ∧
      ∀ place ∈ s.engine.net.placeNames,
        (s.run (["t", "u", "t", "t"].map .fire)).engine.marking.get place =
          .int ((s.engine.marking.get place).value +
            ∑ t ∈ s.engine.net.transitionNames.toFinset,
              (s.engine.firings ["t", "u", "t", "t"]).count t *
                (s.engine.net.flow .output place t - s.engine.net.flow .input place t)) := by
  obtain ⟨s, hs, h⟩ := exists_ok_of_any
    (x := (Simulation.start halvingGraph (some (.int 3)) none {}).1)
    (p := fun s => s.engine.accounting = false ∧ s.initialTokens.IsWhole ∧
      (∀ a ∈ s.engine.net.arcs, a.weight.IsWhole) ∧
      (∀ t ∈ s.engine.net.transitionNames, ∀ place ∈ s.engine.net.placeNames,
        s.engine.net.flow .input place t ≤ 2 ^ 53) ∧
      s.engine.StaysExact ["t", "u", "t", "t"]) (by decide +kernel)
  have heq := Simulation.state_equation hs h.1 h.2.1 h.2.2.1 h.2.2.2.1 h.2.2.2.2
  exact ⟨s, hs, h, heq.1, heq.2.1⟩

/-- One token more than `2 ^ 53` is lost: the transition takes one token and puts back two,
and the place holds what it held before. -/
theorem count_lost_to_rounding :
    let g := Graph.ofOperations
      (operationsOf "# t [Transition]\n<has prior_state> p;\n<has post_state> 2 p;")
    ((Simulation.start g (some (.int (2 ^ 53))) none {}).1.toOption.map fun s =>
      (s.engine.accounting, decide (∀ a ∈ s.engine.net.arcs, a.weight.IsWhole),
        s.engine.firings ["t"], (s.run [.fire "t"]).engine.marking.get "p",
        s.engine.predicted ["t"] "p")) =
      some (false, true, ["t"], .int (2 ^ 53), 2 ^ 53 + 1) := by
  decide +kernel

end NoteGraph
