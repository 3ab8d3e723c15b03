import Mathlib.Algebra.BigOperators.Group.Finset.Basic
import Mathlib.Algebra.BigOperators.Ring.List
import Mathlib.Tactic.Linarith
import NoteGraph.Proofs.Engine.Booking
import NoteGraph.Proofs.Net.Building

/-!
# The order of bookings

In exact arithmetic a booking adds to the balance of each account what the transaction has for
this account, whatever the balance is. So a balance is its opening and, for every transaction,
its effect as often as the transaction was booked: once at the start and once for each firing.
In which order the transactions were booked does not matter, and two nets have the same balances
after all runs exactly if they open with the same balances and their transactions have the same
effects.
-/

namespace NoteGraph

open Exact

theorem Posting.change_eq (p : Posting ℚ) (role : Option String) :
    p.change role = postingSign role p.side * p.amount := by
  unfold change postingSign
  split_ifs <;> simp

/-- What a place holds is the sum of what is listed of it. -/
theorem Marking.sum_eq_get {m : Marking ℚ} (hn : (m.map (·.1)).Nodup) (place : String) :
    (m.map fun entry => if entry.1 = place then entry.2 else 0).sum = m.get place := by
  induction m with
  | nil => rfl
  | cons entry rest ih =>
    obtain ⟨hnew, hrest⟩ := List.nodup_cons.mp hn
    rw [List.map_cons, List.sum_cons, ih hrest, get, get]
    by_cases hplace : place = entry.1
    · subst hplace
      rw [if_pos rfl, List.lookup_cons_self, Keyed.lookup_eq_none_of_notMem hnew]
      exact add_zero _
    · rw [if_neg (Ne.symm hplace), zero_add, Keyed.lookup_cons_of_ne hplace]

namespace Net

variable [EntryOrder]

/-- What one booking of a transaction adds to the balance of an account. -/
def effect (net : Net ℚ) (t place : String) : ℚ :=
  postingSign (net.role? place) .debit * Marking.get (net.outputWeights t) place +
    postingSign (net.role? place) .credit * Marking.get (net.inputWeights t) place

section Effects

variable {net : Net ℚ} {decimals : ℤ}

/-! ### Effects and arcs -/

theorem get_weights (hn : net.placeNames.Nodup)
    (hplaces : ∀ a ∈ net.arcs, a.place ∈ net.placeNames) (direction : Direction)
    (t place : String) :
    Marking.get (net.weights direction t) place = (net.arcWeights direction place t).sum := by
  rw [Marking.get, lookup_weights hn hplaces, ← (net.addends_perm direction place t).sum_eq]
  cases net.addends direction place t with
  | nil => rfl
  | cons first rest =>
    exact foldl_add_eq_sum first rest

/-- Nets with the same arcs, if in another order, have the same effects, when the accounts at the
arcs grow on the same sides. -/
theorem effect_congr {net' : Net ℚ} (hn : net.placeNames.Nodup) (hn' : net'.placeNames.Nodup)
    (hplaces : ∀ a ∈ net.arcs, a.place ∈ net.placeNames)
    (hplaces' : ∀ a ∈ net'.arcs, a.place ∈ net'.placeNames) (harcs : net.arcs.Perm net'.arcs)
    (hsides : ∀ a ∈ net.arcs,
      normalSide (net.role? a.place) = normalSide (net'.role? a.place)) (t place : String) :
    net.effect t place = net'.effect t place := by
  have hweights (direction : Direction) : Marking.get (net.weights direction t) place =
      Marking.get (net'.weights direction t) place := by
    rw [get_weights hn hplaces, get_weights hn' hplaces']
    exact (harcs.filterMap _).sum_eq
  by_cases harc : ∃ a ∈ net.arcs, a.place = place
  · obtain ⟨a, ha, rfl⟩ := harc
    rw [effect, effect, postingSign, postingSign, hsides a ha, outputWeights, inputWeights,
      hweights, hweights]
    rfl
  · have hnone (direction : Direction) : Marking.get (net.weights direction t) place = 0 := by
      rw [get_weights hn hplaces]
      have hnil : net.arcWeights direction place t = [] := by
        by_contra hne
        obtain ⟨a, ha, -, hplace, -⟩ := arcWeights_ne_nil_iff.mp hne
        exact harc ⟨a, ha, hplace⟩
      rw [hnil, List.sum_nil]
    simp only [effect, outputWeights, inputWeights, ← hweights, hnone, mul_zero]

/-! ### Bookings -/

theorem sum_postings (hn : net.placeNames.Nodup) (t place : String) :
    ((net.postings t).map fun p =>
      if p.account = place then p.change (net.role? place) else 0).sum = net.effect t place := by
  have hside (direction : Direction) (side : Side) :
      ((net.weights direction t).map fun arc : String × ℚ =>
        if arc.1 = place then (⟨arc.1, arc.2, side⟩ : Posting ℚ).change (net.role? place)
        else 0).sum =
      postingSign (net.role? place) side * Marking.get (net.weights direction t) place := by
    rw [← Marking.sum_eq_get (nodup_weights hn direction t), ← List.sum_map_mul_left]
    refine congrArg List.sum (List.map_congr_left fun arc _ => ?_)
    rw [Posting.change_eq, mul_ite, mul_zero]
  rw [postings, List.map_append, List.sum_append, List.map_map, List.map_map, effect, add_comm]
  exact congrArg₂ _ (hside .output .debit) (hside .input .credit)

omit [EntryOrder] in
theorem get_foldl_post (ps : List (Posting ℚ)) (place : String) : ∀ {m : Marking ℚ},
    net.IsExactIn decimals m →
    (∀ p ∈ ps, p.account ∈ net.placeNames ∧ p.amount ∈ multiples decimals) →
      (ps.foldl (net.post decimals) m).get place =
        m.get place + (ps.map fun p =>
          if p.account = place then p.change (net.role? place) else 0).sum := by
  induction ps with
  | nil => simp
  | cons p rest ih =>
    intro m hm hps
    obtain ⟨⟨hplace, hp⟩, hrest⟩ := List.forall_mem_cons.mp hps
    rw [List.foldl_cons, ih (hm.post hplace hp) hrest, get_post hm hplace hp, List.map_cons,
      List.sum_cons, ← add_assoc]
    by_cases heq : place = p.account
    · rw [if_pos heq, if_pos heq.symm, heq]
    · rw [if_neg heq, if_neg (Ne.symm heq), add_zero]

/-- A booking adds the effect of its transaction. -/
theorem get_book (h : net.IsExact decimals) {m : Marking ℚ} (hm : net.IsExactIn decimals m)
    (t place : String) :
    (net.book decimals m t).get place = m.get place + net.effect t place := by
  rw [book, get_foldl_post _ place hm fun p hp => mem_postings h hp, sum_postings h.nodup]

theorem get_foldl_book (h : net.IsExact decimals) (ts : List String) (place : String) :
    ∀ {m : Marking ℚ}, net.IsExactIn decimals m →
      (ts.foldl (net.book decimals) m).get place =
        m.get place + (ts.map fun t => net.effect t place).sum := by
  induction ts with
  | nil => simp
  | cons t rest ih =>
    intro m hm
    rw [List.foldl_cons, ih (hm.book h t), get_book h hm, List.map_cons, List.sum_cons, add_assoc]

theorem map_fst_foldl_book (h : net.IsExact decimals) (ts : List String) : ∀ {m : Marking ℚ},
    m.map (·.1) = net.placeNames →
      (ts.foldl (net.book decimals) m).map (·.1) = net.placeNames := by
  have hpost (ps : List (Posting ℚ)) : (∀ p ∈ ps, p.account ∈ net.placeNames) →
      ∀ {m : Marking ℚ}, m.map (·.1) = net.placeNames →
        (ps.foldl (net.post decimals) m).map (·.1) = net.placeNames := by
    induction ps with
    | nil => exact fun _ _ hm => hm
    | cons p rest ih =>
      intro hps m hm
      obtain ⟨hp, hrest⟩ := List.forall_mem_cons.mp hps
      exact ih hrest ((Keyed.map_fst_put_of_mem _ (hm ▸ hp)).trans hm)
  induction ts with
  | nil => exact id
  | cons t rest ih => exact fun hm => ih (hpost _ (fun p hp => (mem_postings h hp).1) hm)

/-! ### Runs -/

variable {ts : List String}

theorem get_balancesAfter (h : net.IsExact decimals) (hts : ∀ t ∈ ts, t ∈ net.transactions)
    (place : String) : (net.balancesAfter decimals ts).get place =
      net.openingBalances.get place + (net.transactions.map fun t => net.effect t place).sum +
        (ts.map fun t => net.effect t place).sum := by
  rw [balancesAfter_eq h hts, get_foldl_book h _ place (isExactIn_openingBalances h),
    List.map_append, List.sum_append, add_assoc]

omit [EntryOrder] in
theorem map_fst_openingBalances (net : Net ℚ) :
    net.openingBalances.map (·.1) = net.placeNames := by
  rw [openingBalances, List.map_map]
  rfl

theorem map_fst_balancesAfter (h : net.IsExact decimals)
    (hts : ∀ t ∈ ts, t ∈ net.transactions) :
    (net.balancesAfter decimals ts).map (·.1) = net.placeNames := by
  rw [balancesAfter_eq h hts]
  exact map_fst_foldl_book h _ net.map_fst_openingBalances

omit [EntryOrder] in
theorem sum_map_eq_sum_count {f : String → ℚ} {all : List String} (hsub : ts ⊆ all) :
    (ts.map f).sum = ∑ t ∈ all.toFinset, (ts.count t : ℚ) * f t := by
  rw [Finset.sum_list_map_count]
  simp only [nsmul_eq_mul]
  refine Finset.sum_subset (fun t ht => List.mem_toFinset.mpr (hsub (List.mem_toFinset.mp ht)))
    fun t _ ht => ?_
  rw [List.count_eq_zero_of_not_mem (by simpa using ht), Nat.cast_zero, zero_mul]

/-- The balances after a run: of each place its opening, and the effect of every transaction
once for the initial booking and once for each firing. -/
theorem balancesAfter_eq_map (h : net.IsExact decimals) (hn : net.transitionNames.Nodup)
    (hts : ∀ t ∈ ts, t ∈ net.transactions) :
    net.balancesAfter decimals ts = net.places.map fun p =>
      (p.name, Quantity.roundTo decimals p.tokens +
        ∑ t ∈ net.transactions.toFinset, (1 + (ts.count t : ℚ)) * net.effect t p.name) := by
  have hkeys := map_fst_balancesAfter h hts
  calc net.balancesAfter decimals ts
      = net.placeNames.map fun place => (place, (net.balancesAfter decimals ts).get place) := by
        rw [← hkeys]
        exact Marking.eq_map_get (hkeys.symm ▸ h.nodup)
    _ = _ := by
        rw [placeNames, List.map_map]
        refine List.map_congr_left fun p hp => congrArg (p.name, ·) ?_
        have hopening : net.openingBalances.get p.name = Quantity.roundTo decimals p.tokens := by
          have hmem : (p.name, p.tokens) ∈ net.openingBalances := List.mem_map_of_mem hp
          rw [Marking.get_of_mem (net.map_fst_openingBalances.symm ▸ h.nodup) hmem]
          exact (roundTo_of_mem (h.balances p hp)).symm
        have htransactions : net.transactions.Nodup := hn.filter _
        rw [get_balancesAfter h hts, hopening, add_assoc, List.sum_toFinset _ htransactions,
          sum_map_eq_sum_count fun t ht => hts t ht, List.sum_toFinset _ htransactions,
          ← List.sum_map_add]
        simp only [add_mul, one_mul]

/-- In which order the transactions are fired does not matter. -/
theorem balancesAfter_perm (h : net.IsExact decimals) (hn : net.transitionNames.Nodup)
    {ts' : List String} (hts : ∀ t ∈ ts, t ∈ net.transactions) (hperm : ts.Perm ts') :
    net.balancesAfter decimals ts' = net.balancesAfter decimals ts := by
  rw [balancesAfter_eq_map h hn hts,
    balancesAfter_eq_map h hn fun t ht => hts t (hperm.mem_iff.mpr ht)]
  simp only [hperm.count_eq]

/-- After all runs of transactions every account has the same balance in two nets. -/
def SameBalances (net : Net ℚ) (decimals : ℤ) (net' : Net ℚ) : Prop :=
  ∀ ts : List String, (∀ t ∈ ts, t ∈ net.transactions) → ∀ place,
    (net.balancesAfter decimals ts).get place = (net'.balancesAfter decimals ts).get place

/-- Two nets have the same balances exactly if they have the same openings and effects. -/
theorem sameBalances_iff {net' : Net ℚ} (h : net.IsExact decimals)
    (h' : net'.IsExact decimals) (ht : net.transactions.Perm net'.transactions) :
    net.SameBalances decimals net' ↔
      ∀ place, net.openingBalances.get place = net'.openingBalances.get place ∧
        ∀ t ∈ net.transactions, net.effect t place = net'.effect t place := by
  have hget (ts : List String) (hts : ∀ t ∈ ts, t ∈ net.transactions) (place : String) :=
    get_balancesAfter h' (fun t hmem => ht.mem_iff.mp (hts t hmem)) place
  constructor
  · intro hruns place
    have hstart := hruns [] (by simp) place
    rw [get_balancesAfter h (by simp), hget [] (by simp)] at hstart
    have heffect : ∀ t ∈ net.transactions, net.effect t place = net'.effect t place := by
      intro t hmem
      have hall : ∀ u ∈ [t], u ∈ net.transactions := List.forall_mem_singleton.mpr hmem
      have hone := hruns [t] hall place
      rw [get_balancesAfter h hall, hget [t] hall] at hone
      simp only [List.map_nil, List.map_cons, List.sum_nil, List.sum_cons, add_zero]
        at hstart hone
      linarith
    refine ⟨?_, heffect⟩
    rw [List.map_congr_left heffect, (ht.map _).sum_eq] at hstart
    simpa using hstart
  · intro hsame ts hts place
    obtain ⟨hopening, heffect⟩ := hsame place
    rw [get_balancesAfter h hts, hget ts hts, hopening, List.map_congr_left heffect,
      (ht.map _).sum_eq, List.map_congr_left fun t hmem => heffect t (hts t hmem)]

end Effects

end Net

end NoteGraph
