import NoteGraph.Proofs.Engine.Sharp
import NoteGraph.Proofs.Number.Monotone

/-!
# Transitions in turn

A sequence of transitions can be tried from any marking: each is fired if it is enabled in its
turn. A marking that holds at least as much everywhere lets the whole sequence be fired too,
whatever is lost to rounding on the way, since neither rounding nor the tolerance swaps two
counts. Only a whole number that is too large to be computed with is in the way.
-/

namespace NoteGraph

open Number.Binary64

namespace Engine

variable {e : Engine Number}

/-- The marking after some transitions are fired one after another from a given one, if each is
enabled in its turn. -/
def fireInTurn [EntryOrder] (e : Engine Number) :
    Marking Number → List String → Except NetError (Option (Marking Number))
  | m, [] => .ok (some m)
  | m, t :: rest => do
    if ← e.isEnabledGiven m t then
      let next ← e.successorGiven m t
      e.fireInTurn next rest
    else return none

/-- The places that some transitions take from or put into. -/
def touched [EntryOrder] (e : Engine Number) (ts : List String) : List String :=
  ts.flatMap fun t => (e.net.postings t).map (·.account)

theorem mem_touched_cons [EntryOrder] {t place : String} {rest : List String} :
    place ∈ e.touched (t :: rest) ↔ (∃ direction, ∃ arc ∈ e.net.weights direction t,
      arc.1 = place) ∨ place ∈ e.touched rest := by
  rw [touched, List.flatMap_cons, List.mem_append]
  refine or_congr_left ?_
  rw [Net.postings, List.map_append, List.map_map, List.map_map, List.mem_append, List.mem_map,
    List.mem_map]
  constructor
  · rintro (⟨arc, harc, rfl⟩ | ⟨arc, harc, rfl⟩)
    · exact ⟨.input, arc, harc, rfl⟩
    · exact ⟨.output, arc, harc, rfl⟩
  · rintro ⟨direction, arc, harc, rfl⟩
    cases direction with
    | input => exact .inl ⟨arc, harc, rfl⟩
    | output => exact .inr ⟨arc, harc, rfl⟩

/-! ### One place -/

/-- What a place holds after something is taken from it, if anything is. -/
def drawn (e : Engine Number) (held : Number) : Option Number → Number
  | some weight => e.settle (held - weight)
  | none => held

/-- What a place holds after something is put into it, if anything is. -/
def filled (e : Engine Number) (held : Number) : Option Number → Number
  | some weight => e.settle (held + weight)
  | none => held

/-- A place changes on its own. -/
theorem get_successor_eq [EntryOrder] (h : e.accounting = false)
    (hn : e.net.placeNames.Nodup) (m : Marking Number) (t place : String) :
    (e.successor m t).get place =
      e.filled (e.drawn (m.get place) ((e.net.inputWeights t).lookup place))
        ((e.net.outputWeights t).lookup place) := by
  rw [get_successor h hn, afterTaking]
  cases (e.net.inputWeights t).lookup place <;> cases (e.net.outputWeights t).lookup place <;> rfl

theorem get_successor_of_untouched [EntryOrder] (h : e.accounting = false)
    (hn : e.net.placeNames.Nodup) (m : Marking Number) {t place : String}
    (hplace : ∀ direction, ∀ arc ∈ e.net.weights direction t, arc.1 ≠ place) :
    (e.successor m t).get place = m.get place := by
  have hnone : ∀ direction, (e.net.weights direction t).lookup place = none := by
    intro direction
    refine Keyed.lookup_eq_none_of_notMem fun hmem => ?_
    obtain ⟨arc, harc, heq⟩ := List.mem_map.mp hmem
    exact hplace direction arc harc heq
  have hin : (e.net.inputWeights t).lookup place = none := hnone .input
  have hout : (e.net.outputWeights t).lookup place = none := hnone .output
  rw [get_successor_eq h hn, hin, hout]
  rfl

/-! ### Counts in order -/

theorem toBinary64_settle (h : e.accounting = false) (value : Number) :
    (e.settle value).toBinary64 =
      if value.toBinary64.abs.lt Number.tolerance64 then zero
      else (Number.ofWhole value.toBinary64).toBinary64 := by
  rw [settle_eq h, Number.magnitude_eq, Number.below_slack, Number.toBinary64,
    apply_ite Number.toBinary64]
  rfl

theorem settle_eq_undefined_iff (h : e.accounting = false) {value : Number} :
    (e.settle value).toBinary64 = .undefined ↔ value.toBinary64 = .undefined := by
  rw [toBinary64_settle h]
  split_ifs with hsmall
  · exact iff_of_false zero_ne_undefined ((abs_lt_iff Number.fits_toleranceUnits).mp hsmall).1
  · exact Number.ofWhole_eq_undefined_iff

/-- What is as good as zero counts as zero, and all else as it is. -/
theorem extent_settle (h : e.accounting = false) {value : Number}
    (hvalue : value.toBinary64 ≠ .undefined) : (e.settle value).toBinary64.extent =
      if value.toBinary64.extent.natAbs < Number.toleranceUnits then 0
      else value.toBinary64.extent := by
  rw [toBinary64_settle h]
  have hsmall := abs_lt_iff (x := value.toBinary64) Number.fits_toleranceUnits
  rw [and_iff_right hvalue] at hsmall
  by_cases hlt : value.toBinary64.extent.natAbs < Number.toleranceUnits
  · rw [if_pos hlt, Number.tolerance64, if_pos (hsmall.mpr hlt), extent_zero]
  · rw [if_neg hlt, Number.tolerance64, if_neg (mt hsmall.mp hlt), Number.extent_ofWhole]

/-- The tolerance swaps no counts. -/
theorem atMost_settle (h : e.accounting = false) {value value' : Number}
    (hle : value.toBinary64.AtMost value'.toBinary64) :
    (e.settle value).toBinary64.AtMost (e.settle value').toBinary64 := by
  rcases hle with hle | hle
  · exact .inl ((settle_eq_undefined_iff h).mpr hle)
  · obtain ⟨hdef, hdef', hextent⟩ := le_iff.mp hle
    refine .inr (le_iff.mpr ⟨mt (settle_eq_undefined_iff h).mp hdef,
      mt (settle_eq_undefined_iff h).mp hdef', ?_⟩)
    rw [extent_settle h hdef, extent_settle h hdef']
    split_ifs <;> omega

theorem atMost_drawn (h : e.accounting = false) {held held' : Number} {weight : Option Number}
    (hle : held.toBinary64.AtMost held'.toBinary64)
    (hweight : ∀ w ∈ weight, w.toBinary64.NonNeg ∧ covers held w = true) :
    (e.drawn held weight).toBinary64.AtMost (e.drawn held' weight).toBinary64 := by
  cases weight with
  | none => exact hle
  | some w =>
    obtain ⟨hw, hcovers⟩ := hweight w rfl
    rw [Number.covers_eq] at hcovers
    exact atMost_settle h (hle.sub hw hcovers)

theorem atMost_filled (h : e.accounting = false) {held held' : Number} {weight : Option Number}
    (hle : held.toBinary64.AtMost held'.toBinary64)
    (hweight : ∀ w ∈ weight, w.toBinary64.NonNeg) :
    (e.filled held weight).toBinary64.AtMost (e.filled held' weight).toBinary64 := by
  cases weight with
  | none => exact hle
  | some w => exact atMost_settle h (hle.add (hweight w rfl))

theorem covers_of_atMost {held held' weight : Number}
    (hle : held.toBinary64.AtMost held'.toBinary64) (hcovers : covers held weight = true) :
    covers held' weight = true := by
  rw [Number.covers_eq] at hcovers ⊢
  exact hle.le hcovers

/-- What is counted can be computed with. -/
theorem isTooLarge_settle (h : e.accounting = false) (value : Number) :
    (e.settle value).isTooLarge = false := by
  rw [settle_eq h]
  split_ifs
  · decide +kernel
  · change (Number.ofWhole value.toBinary64).isTooLarge = false
    cases hvalue : value.toBinary64 with
    | finite n u hu => exact Number.isTooLarge_eq_false (Number.isFinite_ofWhole rfl)
    | infinite | undefined => rfl

theorem isTooLarge_get_successor [EntryOrder] (h : e.accounting = false)
    (hn : e.net.placeNames.Nodup) {m : Marking Number} {place : String}
    (hm : (m.get place).isTooLarge = false) (t : String) :
    ((e.successor m t).get place).isTooLarge = false := by
  rw [get_successor_eq h hn]
  cases (e.net.outputWeights t).lookup place with
  | some w => exact isTooLarge_settle h _
  | none =>
    cases (e.net.inputWeights t).lookup place with
    | some w => exact isTooLarge_settle h _
    | none => exact hm

/-! ### Steps -/

section Steps

variable [EntryOrder] {m n : Marking Number} {t : String} {rest : List String}

theorem isEnabledGiven_eq_true_iff (h : e.accounting = false) :
    e.isEnabledGiven m t = .ok true ↔ e.isEnabledIn m t = true ∧
      ∀ arc ∈ e.net.inputWeights t, (m.get arc.1).isTooLarge = false := by
  unfold isEnabledGiven
  simp only [books_eq_false h, Bool.false_eq_true, if_false]
  cases hfind : (e.net.inputWeights t).find? fun arc =>
      (m.get arc.1).isTooLarge || !covers (m.get arc.1) arc.2 with
  | none =>
    have hall := List.find?_eq_none.mp hfind
    simp only [Except.ok.injEq, iff_self_and]
    intro _ arc harc
    have hgood := hall arc harc
    rw [Bool.or_eq_true, not_or, Bool.not_eq_true] at hgood
    exact hgood.1
  | some arc =>
    have hmem := List.mem_of_find?_eq_some hfind
    have hbad := List.find?_some hfind
    simp only
    refine iff_of_false ?_ ?_
    · split_ifs <;> simp
    · rintro ⟨henabled, hsmall⟩
      have hcovers := ((isEnabledIn_iff h).mp henabled).2.2 arc hmem
      simp [hsmall arc hmem, hcovers] at hbad

theorem successorGiven_eq_ok_iff : e.successorGiven m t = .ok n ↔
    e.net.hasTransition t = true ∧
      m.isMeasurable ((e.net.postings t).map (·.account)) = true ∧ e.successor m t = n := by
  unfold successorGiven
  cases e.net.hasTransition t <;>
    cases m.isMeasurable ((e.net.postings t).map (·.account)) <;> simp

omit [EntryOrder] in
theorem isMeasurable_iff {places : List String} : m.isMeasurable places = true ↔
    ∀ place ∈ places, (m.get place).isTooLarge = false := by
  simp [Marking.isMeasurable, List.all_eq_true]

theorem fireInTurn_cons_iff (h : e.accounting = false) :
    e.fireInTurn m (t :: rest) = .ok (some n) ↔ e.isEnabledIn m t = true ∧
      m.isMeasurable ((e.net.postings t).map (·.account)) = true ∧
      e.fireInTurn (e.successor m t) rest = .ok (some n) := by
  rw [fireInTurn]
  constructor
  · intro hrun
    cases henabled : e.isEnabledGiven m t with
    | error err =>
      rw [henabled] at hrun
      cases hrun
    | ok enabled =>
      cases enabled with
      | false =>
        rw [henabled] at hrun
        cases hrun
      | true =>
        cases hnext : e.successorGiven m t with
        | error err =>
          rw [henabled, hnext] at hrun
          cases hrun
        | ok next =>
          rw [henabled, hnext] at hrun
          obtain ⟨-, hmeasurable, rfl⟩ := successorGiven_eq_ok_iff.mp hnext
          exact ⟨((isEnabledGiven_eq_true_iff h).mp henabled).1, hmeasurable, hrun⟩
  · rintro ⟨henabled, hmeasurable, hrun⟩
    have hsmall : ∀ arc ∈ e.net.inputWeights t, (m.get arc.1).isTooLarge = false := by
      intro arc harc
      refine isMeasurable_iff.mp hmeasurable arc.1 ?_
      rw [Net.postings, List.map_append, List.mem_append, List.map_map]
      exact .inl (List.mem_map.mpr ⟨arc, harc, rfl⟩)
    have hnext := successorGiven_eq_ok_iff.mpr
      ⟨((isEnabledIn_iff h).mp henabled).1, hmeasurable, rfl⟩
    rw [(isEnabledGiven_eq_true_iff h).mpr ⟨henabled, hsmall⟩, hnext]
    exact hrun

/-- A run ends in what the transitions lead to one after another. -/
theorem eq_foldl_of_fireInTurn (h : e.accounting = false) (ts : List String) :
    ∀ {m n : Marking Number}, e.fireInTurn m ts = .ok (some n) → n = ts.foldl e.successor m := by
  induction ts with
  | nil =>
    intro m n hrun
    exact (Option.some.inj (Except.ok.inj hrun)).symm
  | cons t rest ih => exact fun hrun => ih ((fireInTurn_cons_iff h).mp hrun).2.2

end Steps

/-! ### Runs -/

/-- A marking that holds at most what another holds, in all places of the net. -/
def IsBelow (e : Engine Number) (m m' : Marking Number) : Prop :=
  ∀ place ∈ e.net.placeNames, (m.get place).toBinary64.AtMost (m'.get place).toBinary64

section Runs

variable [EntryOrder] (h : e.accounting = false) (hn : e.net.placeNames.Nodup)
  (hweights : ∀ direction t, ∀ arc ∈ e.net.weights direction t, arc.2.toBinary64.NonNeg)
  {m m' : Marking Number} {t : String}

include h

theorem isEnabledIn_of_isBelow (hle : e.IsBelow m m') (ht : e.isEnabledIn m t = true) :
    e.isEnabledIn m' t = true := by
  obtain ⟨hname, hinputs, hcovers⟩ := (isEnabledIn_iff h).mp ht
  refine (isEnabledIn_iff h).mpr ⟨hname, hinputs, fun arc harc => ?_⟩
  exact covers_of_atMost (hle arc.1 (Net.mem_weights.mp harc).1) (hcovers arc harc)

include hn hweights

/-- A firing swaps no two counts. -/
theorem isBelow_successor (hle : e.IsBelow m m') (ht : e.isEnabledIn m t = true) :
    e.IsBelow (e.successor m t) (e.successor m' t) := by
  intro place hplace
  rw [get_successor_eq h hn, get_successor_eq h hn]
  refine atMost_filled h (atMost_drawn h (hle place hplace) fun w hw => ?_) fun w hw => ?_
  · have hmem := Keyed.mem_of_lookup_eq_some hw
    exact ⟨hweights .input t _ hmem, ((isEnabledIn_iff h).mp ht).2.2 _ hmem⟩
  · exact hweights .output t _ (Keyed.mem_of_lookup_eq_some hw)

/-- Transitions that fire in turn from a marking do so from one that holds as much, if it can
be computed with. -/
theorem fireInTurn_of_isBelow (ts : List String) : ∀ {m m' n : Marking Number},
    e.IsBelow m m' → m'.isMeasurable (e.touched ts) = true →
      e.fireInTurn m ts = .ok (some n) →
        e.fireInTurn m' ts = .ok (some (ts.foldl e.successor m')) := by
  induction ts with
  | nil => exact fun _ _ _ => rfl
  | cons t rest ih =>
    intro m m' n hle hmeasurable hrun
    obtain ⟨ht, -, hrest⟩ := (fireInTurn_cons_iff h).mp hrun
    rw [isMeasurable_iff] at hmeasurable
    refine (fireInTurn_cons_iff h).mpr ⟨isEnabledIn_of_isBelow h hle ht, ?_, ?_⟩
    · refine isMeasurable_iff.mpr fun place hplace => hmeasurable place ?_
      exact List.mem_append_left _ hplace
    · refine ih (isBelow_successor h hn hweights hle ht) ?_ hrest
      refine isMeasurable_iff.mpr fun place hplace => isTooLarge_get_successor h hn ?_ t
      exact hmeasurable place (mem_touched_cons.mpr (.inr hplace))

omit hweights in
/-- Places that no transition touches keep what they hold. -/
theorem get_foldl_successor (ts : List String) {place : String} (hplace : place ∉ e.touched ts) :
    ∀ m : Marking Number, (ts.foldl e.successor m).get place = m.get place := by
  induction ts with
  | nil => exact fun _ => rfl
  | cons t rest ih =>
    intro m
    rw [mem_touched_cons, not_or] at hplace
    rw [List.foldl_cons, ih hplace.2]
    refine get_successor_of_untouched h hn m fun direction arc harc heq => ?_
    exact hplace.1 ⟨direction, arc, harc, heq⟩

end Runs

end Engine

end NoteGraph
