import Mathlib.Algebra.Group.Subgroup.Finite
import NoteGraph.Engine.Basic
import NoteGraph.Proofs.Net.OfGraph
import NoteGraph.Proofs.Number.Exact

/-!
# Booking in exact arithmetic

Where balances and weights have no more decimals than balances are rounded to, rounding changes
nothing: a posting adds to the balance of its account or takes off it, and balances keep to
these decimals. A transaction of an accounting net can always be booked, so a run of firings is
a run of bookings.
-/

namespace NoteGraph

open Exact

namespace Net

/-- A net whose balances and weights are multiples of the last decimal. -/
structure IsExact (net : Net ℚ) (decimals : ℤ) : Prop where
  nodup : net.placeNames.Nodup
  balances : ∀ p ∈ net.places, p.tokens ∈ multiples decimals
  weights : ∀ a ∈ net.arcs, a.weight ∈ multiples decimals

/-- A marking whose balances are multiples of the last decimal. -/
def IsExactIn (net : Net ℚ) (decimals : ℤ) (m : Marking ℚ) : Prop :=
  ∀ place ∈ net.placeNames, m.get place ∈ multiples decimals

section Booking

variable {net : Net ℚ} {decimals : ℤ}

/-! ### One posting -/

theorem mem_change {p : Posting ℚ} (hp : p.amount ∈ multiples decimals) (role : Option String) :
    p.change role ∈ multiples decimals := by
  unfold Posting.change
  split_ifs
  · exact hp
  · exact neg_mem hp

theorem mem_balanceAfter {m : Marking ℚ} (hm : net.IsExactIn decimals m) {p : Posting ℚ}
    (hplace : p.account ∈ net.placeNames) (hp : p.amount ∈ multiples decimals) :
    net.balanceAfter m p ∈ multiples decimals :=
  add_mem (hm p.account hplace) (mem_change hp _)

/-- An exact posting changes the balance of its account, and nothing else. -/
theorem get_post {m : Marking ℚ} (hm : net.IsExactIn decimals m) {p : Posting ℚ}
    (hplace : p.account ∈ net.placeNames) (hp : p.amount ∈ multiples decimals) (other : String) :
    (net.post decimals m p).get other =
      if other = p.account then m.get p.account + p.change (net.role? p.account)
      else m.get other := by
  have hround : Quantity.roundTo decimals (net.balanceAfter m p) = net.balanceAfter m p :=
    roundTo_of_mem (mem_balanceAfter hm hplace hp)
  rw [post, Marking.get_set, hround]
  rfl

theorem IsExactIn.post {m : Marking ℚ} (hm : net.IsExactIn decimals m) {p : Posting ℚ}
    (hplace : p.account ∈ net.placeNames) (hp : p.amount ∈ multiples decimals) :
    net.IsExactIn decimals (net.post decimals m p) := by
  intro other hother
  rw [get_post hm hplace hp]
  split_ifs
  · exact mem_balanceAfter hm hplace hp
  · exact hm other hother

/-! ### Postings of a transaction -/

theorem foldl_add_eq_sum (first : ℚ) (rest : List ℚ) :
    rest.foldl (· + ·) first = (first :: rest).sum :=
  List.foldl_eq_apply_foldr

variable [EntryOrder]

theorem mem_weight (h : net.IsExact decimals) {direction : Direction} {t place : String}
    {weight : ℚ} (hw : (place, weight) ∈ net.weights direction t) :
    weight ∈ multiples decimals := by
  obtain ⟨-, first, rest, harcs, rfl⟩ := mem_weights.mp hw
  rw [foldl_add_eq_sum]
  refine (multiples decimals).list_sum_mem fun w hmem => ?_
  obtain ⟨a, ha, rfl⟩ := mem_addends (harcs ▸ hmem)
  exact h.weights a ha

theorem mem_postings (h : net.IsExact decimals) {t : String} {p : Posting ℚ}
    (hp : p ∈ net.postings t) : p.account ∈ net.placeNames ∧ p.amount ∈ multiples decimals := by
  rw [postings, List.mem_append, List.mem_map, List.mem_map] at hp
  rcases hp with ⟨⟨place, weight⟩, hw, rfl⟩ | ⟨⟨place, weight⟩, hw, rfl⟩
  · exact ⟨(mem_weights.mp hw).1, mem_weight h hw⟩
  · exact ⟨(mem_weights.mp hw).1, mem_weight h hw⟩

/-! ### Bookings -/

omit [EntryOrder] in
theorem IsExactIn.foldl_post (ps : List (Posting ℚ)) : ∀ {m : Marking ℚ},
    net.IsExactIn decimals m →
    (∀ p ∈ ps, p.account ∈ net.placeNames ∧ p.amount ∈ multiples decimals) →
      net.IsExactIn decimals (ps.foldl (net.post decimals) m) := by
  induction ps with
  | nil => exact fun hm _ => hm
  | cons p rest ih =>
    intro m hm hps
    obtain ⟨⟨hplace, hp⟩, hrest⟩ := List.forall_mem_cons.mp hps
    exact ih (hm.post hplace hp) hrest

theorem IsExactIn.book (h : net.IsExact decimals) {m : Marking ℚ} (hm : net.IsExactIn decimals m)
    (t : String) : net.IsExactIn decimals (net.book decimals m t) :=
  IsExactIn.foldl_post _ hm fun _ hp => mem_postings h hp

theorem IsExactIn.foldl_book (h : net.IsExact decimals) (ts : List String) :
    ∀ {m : Marking ℚ}, net.IsExactIn decimals m →
      net.IsExactIn decimals (ts.foldl (net.book decimals) m) := by
  induction ts with
  | nil => exact id
  | cons t rest ih => exact fun hm => ih (hm.book h t)

/-! ### Openings -/

/-- The balances with which the places open. -/
def openingBalances (net : Net ℚ) : Marking ℚ := net.places.map fun p => (p.name, p.tokens)

omit [EntryOrder] in
theorem isExactIn_openingBalances (h : net.IsExact decimals) :
    net.IsExactIn decimals net.openingBalances := by
  intro place hplace
  obtain ⟨p, hp, rfl⟩ := List.mem_map.mp hplace
  have hnames : net.openingBalances.map (·.1) = net.placeNames := by
    rw [openingBalances, List.map_map]
    rfl
  have hmem : (p.name, p.tokens) ∈ net.openingBalances :=
    List.mem_map.mpr ⟨p, hp, rfl⟩
  rw [Marking.get_of_mem (hnames.symm ▸ h.nodup) hmem]
  exact h.balances p hp

theorem initialMarking_eq_book (h : net.IsExact decimals) :
    Engine.initialMarking net true decimals =
      net.transactions.foldl (net.book decimals) net.openingBalances := by
  have hopening : (net.places.map fun p => (p.name, Quantity.roundTo decimals p.tokens)) =
      net.openingBalances :=
    List.map_congr_left fun p hp => congrArg (p.name, ·) (roundTo_of_mem (h.balances p hp))
  rw [Engine.initialMarking, if_pos rfl, hopening]

end Booking

/-! ### Runs -/

section Runs

variable [EntryOrder] {e : Engine ℚ}

/-- A transaction of an accounting net can always be booked. -/
theorem fire_transaction (haccounting : e.accounting = true) {t : String}
    (ht : t ∈ e.net.transactions) :
    e.fire t = { e with marking := e.net.book e.decimals e.marking t } := by
  obtain ⟨hname, hrole⟩ := List.mem_filter.mp ht
  have hbooks : e.books t = true := by rw [Engine.books, haccounting, hrole]; rfl
  have htransition : e.net.hasTransition t = true := by
    simpa [hasTransition, transitionNames, List.any_eq_true] using hname
  have henabled : e.isEnabled t = true := by
    simp [Engine.isEnabled, Engine.isEnabledIn, htransition, hbooks]
  rw [Engine.fire, if_pos henabled, Engine.successor, if_pos hbooks]

theorem marking_foldl_fire (ts : List String) : ∀ {e : Engine ℚ}, e.accounting = true →
    (∀ t ∈ ts, t ∈ e.net.transactions) →
      (ts.foldl Engine.fire e).marking = ts.foldl (e.net.book e.decimals) e.marking := by
  induction ts with
  | nil => exact fun _ _ => rfl
  | cons t rest ih =>
    intro e haccounting hts
    obtain ⟨ht, hrest⟩ := List.forall_mem_cons.mp hts
    have hfire := fire_transaction haccounting ht
    have hnext := @ih (e.fire t) (by rw [hfire]; exact haccounting) (by rw [hfire]; exact hrest)
    rw [List.foldl_cons, hnext, hfire, List.foldl_cons]

/-- The balances after the initial booking and some firings. -/
def balancesAfter (net : Net ℚ) (decimals : ℤ) (ts : List String) : Marking ℚ :=
  (ts.foldl Engine.fire (Engine.start net true decimals)).marking

/-- A run books every transaction once, and then those that are fired. -/
theorem balancesAfter_eq {net : Net ℚ} {decimals : ℤ} (h : net.IsExact decimals)
    {ts : List String} (hts : ∀ t ∈ ts, t ∈ net.transactions) :
    net.balancesAfter decimals ts =
      (net.transactions ++ ts).foldl (net.book decimals) net.openingBalances := by
  rw [balancesAfter, List.foldl_append, ← initialMarking_eq_book h]
  exact marking_foldl_fire ts rfl hts

end Runs

end Net

end NoteGraph
