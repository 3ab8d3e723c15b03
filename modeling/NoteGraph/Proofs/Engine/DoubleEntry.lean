import Mathlib.Algebra.BigOperators.Group.Finset.Piecewise
import Mathlib.Algebra.BigOperators.Group.List.Basic
import Mathlib.Algebra.BigOperators.Ring.Finset
import Mathlib.Algebra.Group.Subgroup.Finite
import Mathlib.Tactic.Linarith
import NoteGraph.Net.RowSort
import NoteGraph.Proofs.Engine.Booking

/-!
# Double entry

A debit raises the accounts that the accounting equation adds and lowers those that it takes
off, and a credit does the opposite. So a booking changes what remains of the equation, plain
accounts included, by what its debits exceed its credits, and balanced bookings do not change
it at all. All of this is exact arithmetic: balances and weights have no more decimals than
balances are rounded to.
-/

namespace NoteGraph

open Exact

/-! ### Sides and signs -/

/-- The sign with which the accounting equation takes the accounts of a role: plus for those
that grow on the debit side. -/
def equationSign (role : Option String) : ℚ := if normalSide role = .debit then 1 else -1

/-- What a posting adds to the debit side of the books. -/
def Posting.debited (p : Posting ℚ) : ℚ := if p.side = .debit then p.amount else -p.amount

/-- The two signs of a posting cancel, whatever the role of its account. -/
theorem equationSign_mul_change (role : Option String) (p : Posting ℚ) :
    equationSign role * p.change role = p.debited := by
  obtain ⟨account, amount, side⟩ := p
  unfold equationSign Posting.change Posting.debited
  cases normalSide role <;> cases side <;> simp

/-- What remains of the accounting equation, plain accounts included. -/
def AccountingSummary.excess (s : AccountingSummary ℚ) : ℚ := s.residual + s.unclassified

namespace Net

/-- Exact books: every place is an account, and all amounts are multiples of the last
decimal. -/
structure IsExactBook (net : Net ℚ) (decimals : ℤ) : Prop where
  nodup : net.placeNames.Nodup
  accounts : ∀ p ∈ net.places, ∃ role ∈ accountRoles, p.role = some role
  balances : ∀ p ∈ net.places, p.tokens ∈ multiples decimals
  weights : ∀ a ∈ net.arcs, a.weight ∈ multiples decimals

theorem IsExactBook.isExact {net : Net ℚ} {decimals : ℤ} (h : net.IsExactBook decimals) :
    net.IsExact decimals :=
  ⟨h.nodup, h.balances, h.weights⟩

/-- What the books hold on the debit side. -/
def debitSide (net : Net ℚ) (m : Marking ℚ) : ℚ :=
  ∑ place ∈ net.placeNames.toFinset, equationSign (net.role? place) * m.get place

section Books

variable {net : Net ℚ} {decimals : ℤ}

theorem total_eq_sum (quantities : List ℚ) : total quantities = quantities.sum :=
  List.sum_eq_foldl.symm

theorem exists_role (h : net.IsExactBook decimals) {place : String}
    (hp : place ∈ net.placeNames) : ∃ role ∈ accountRoles, net.role? place = some role := by
  obtain ⟨p, hmem, rfl⟩ := List.mem_map.mp hp
  have hsome : (net.places.find? (·.name == p.name)).isSome = true := by
    rw [List.find?_isSome]
    exact ⟨p, hmem, beq_self_eq_true p.name⟩
  obtain ⟨found, hfound⟩ := Option.isSome_iff_exists.mp hsome
  obtain ⟨role, hrole, heq⟩ := h.accounts found (List.mem_of_find?_eq_some hfound)
  refine ⟨role, hrole, ?_⟩
  simp only [role?, hfound, heq]

/-! ### The accounting equation -/

/-- Summing account by account is summing role by role, with the signs of the equation. -/
theorem sum_by_roles (role? : String → Option String) (balance : String → ℚ)
    (places : List String) (h : ∀ p ∈ places, ∃ role ∈ accountRoles, role? p = some role) :
    let sumOf (role : String) := ((places.filter fun p => role? p == some role).map balance).sum
    (places.map fun p => equationSign (role? p) * balance p).sum =
      sumOf "Asset" - sumOf "Liability" - sumOf "Equity" - sumOf "Revenue" + sumOf "Expense" +
        sumOf "Account" := by
  induction places with
  | nil => simp
  | cons p rest ih =>
    obtain ⟨⟨role, hrole, hp⟩, hrest⟩ := List.forall_mem_cons.mp h
    specialize ih hrest
    simp only at ih ⊢
    simp only [accountRoles, standardRoles, plainAccountRole, List.mem_cons, List.not_mem_nil,
      or_false] at hrole
    rw [List.map_cons, List.sum_cons, ih]
    rcases hrole with rfl | rfl | rfl | rfl | rfl | rfl
    all_goals
      simp [hp, equationSign, normalSide, creditRoles]
      ring

theorem mem_roleTotal {m : Marking ℚ} (hm : net.IsExactIn decimals m) (role : String) :
    net.roleTotal m role ∈ multiples decimals := by
  rw [roleTotal, total_eq_sum]
  refine (multiples decimals).list_sum_mem fun x hx => ?_
  obtain ⟨place, hplace, rfl⟩ := List.mem_map.mp hx
  exact hm place (List.mem_filter.mp hplace).1

/-- The summary of exact books tells what they hold on the debit side. -/
theorem excess_accountingSummary (h : net.IsExactBook decimals) (epsilon : ℚ) {m : Marking ℚ}
    (hm : net.IsExactIn decimals m) :
    (net.accountingSummary epsilon decimals m).excess = net.debitSide m := by
  have hround : ∀ role, net.roundedTotal decimals m role = net.roleTotal m role :=
    fun role => roundTo_of_mem (mem_roleTotal hm role)
  have hremainder : net.remainder decimals m = net.roleTotal m "Asset" -
      net.roleTotal m "Liability" - net.roleTotal m "Equity" - net.roleTotal m "Revenue" +
        net.roleTotal m "Expense" := by
    simp only [remainder, hround]
  have hmem : net.remainder decimals m ∈ multiples decimals := by
    rw [hremainder]
    have htotal := mem_roleTotal hm
    exact add_mem (sub_mem (sub_mem (sub_mem (htotal _) (htotal _)) (htotal _)) (htotal _))
      (htotal _)
  have hresidual : (net.accountingSummary epsilon decimals m).residual =
      net.remainder decimals m := roundTo_of_mem hmem
  have hplain : (net.accountingSummary epsilon decimals m).unclassified =
      net.roleTotal m "Account" := hround plainAccountRole
  have hsum := sum_by_roles net.role? m.get net.placeNames fun p hp => exists_role h hp
  rw [AccountingSummary.excess, hresidual, hplain, hremainder, debitSide,
    List.sum_toFinset _ h.nodup, hsum]
  simp only [roleTotal, total_eq_sum]

/-! ### One posting -/

theorem debitSide_post {m : Marking ℚ} (hm : net.IsExactIn decimals m) {p : Posting ℚ}
    (hplace : p.account ∈ net.placeNames) (hp : p.amount ∈ multiples decimals) :
    net.debitSide (net.post decimals m p) = net.debitSide m + p.debited := by
  have hterm : ∀ place, equationSign (net.role? place) * (net.post decimals m p).get place =
      equationSign (net.role? place) * m.get place +
        if place = p.account then p.debited else 0 := by
    intro place
    rw [get_post hm hplace hp]
    by_cases heq : place = p.account
    · subst heq
      rw [if_pos rfl, if_pos rfl, mul_add, equationSign_mul_change]
    · rw [if_neg heq, if_neg heq, add_zero]
  simp only [debitSide, hterm, Finset.sum_add_distrib, Finset.sum_ite_eq',
    List.mem_toFinset.mpr hplace, if_true]

/-! ### Whole bookings -/

theorem debitSide_foldl_post (ps : List (Posting ℚ)) : ∀ {m : Marking ℚ},
    net.IsExactIn decimals m →
    (∀ p ∈ ps, p.account ∈ net.placeNames ∧ p.amount ∈ multiples decimals) →
      net.debitSide (ps.foldl (net.post decimals) m) =
        net.debitSide m + (ps.map Posting.debited).sum := by
  induction ps with
  | nil => simp
  | cons p rest ih =>
    intro m hm hps
    obtain ⟨⟨hplace, hp⟩, hrest⟩ := List.forall_mem_cons.mp hps
    rw [List.foldl_cons, ih (hm.post hplace hp) hrest, debitSide_post hm hplace hp, List.map_cons,
      List.sum_cons, add_assoc]

variable [EntryOrder]

/-- A booking adds its debits to the debit side and takes off its credits. -/
theorem sum_debited (net : Net ℚ) (t : String) :
    ((net.postings t).map Posting.debited).sum =
      net.totalWeight .output t - net.totalWeight .input t := by
  have hcredits : (((net.inputWeights t).map fun arc => (⟨arc.1, arc.2, .credit⟩ : Posting ℚ)).map
      Posting.debited).sum = -net.totalWeight .input t := by
    rw [totalWeight, total_eq_sum, List.sum_neg, List.map_map, List.map_map]
    rfl
  have hdebits : (((net.outputWeights t).map fun arc => (⟨arc.1, arc.2, .debit⟩ : Posting ℚ)).map
      Posting.debited).sum = net.totalWeight .output t := by
    rw [totalWeight, total_eq_sum, List.map_map]
    rfl
  rw [postings, List.map_append, List.sum_append, hcredits, hdebits, neg_add_eq_sub]

theorem mem_totalWeight (h : net.IsExactBook decimals) (direction : Direction) (t : String) :
    net.totalWeight direction t ∈ multiples decimals := by
  rw [totalWeight, total_eq_sum]
  refine (multiples decimals).list_sum_mem fun x hx => ?_
  obtain ⟨⟨place, weight⟩, hw, rfl⟩ := List.mem_map.mp hx
  exact mem_weight h.isExact hw

/-- A booking changes the debit side by the difference of the totals of its sides. -/
theorem debitSide_book (h : net.IsExactBook decimals) (epsilon : ℚ) {m : Marking ℚ}
    (hm : net.IsExactIn decimals m) (t : String) :
    net.debitSide (net.book decimals m t) =
      net.debitSide m + (net.balanceOf epsilon decimals t).difference := by
  have hdebit : (net.balanceOf epsilon decimals t).debit = net.totalWeight .output t :=
    roundTo_of_mem (mem_totalWeight h .output t)
  have hcredit : (net.balanceOf epsilon decimals t).credit = net.totalWeight .input t :=
    roundTo_of_mem (mem_totalWeight h .input t)
  have hdifference : (net.balanceOf epsilon decimals t).difference =
      net.totalWeight .output t - net.totalWeight .input t := by
    rw [← hdebit, ← hcredit]
    rfl
  rw [hdifference, ← sum_debited]
  exact debitSide_foldl_post (net.postings t) hm fun p hp => mem_postings h.isExact hp

/-! ### Balanced books -/

/-- Every transaction debits as much as it credits. -/
def IsBalanced (net : Net ℚ) (epsilon : ℚ) (decimals : ℤ) : Prop :=
  ∀ b ∈ net.transactionBalances epsilon decimals, b.debit = b.credit

theorem difference_eq_zero {epsilon : ℚ} (h : net.IsBalanced epsilon decimals) {t : String}
    (ht : t ∈ net.transactions) : (net.balanceOf epsilon decimals t).difference = 0 :=
  sub_eq_zero.mpr (h _ (List.mem_map_of_mem ht))

/-- What balanced books hold on the debit side is not changed by booking transactions. -/
theorem debitSide_foldl_book (h : net.IsExactBook decimals) {epsilon : ℚ}
    (hbalanced : net.IsBalanced epsilon decimals) (ts : List String) :
    ∀ {m : Marking ℚ}, net.IsExactIn decimals m → (∀ t ∈ ts, t ∈ net.transactions) →
      net.debitSide (ts.foldl (net.book decimals) m) = net.debitSide m := by
  induction ts with
  | nil => exact fun _ _ => rfl
  | cons t rest ih =>
    intro m hm hts
    obtain ⟨ht, hrest⟩ := List.forall_mem_cons.mp hts
    rw [List.foldl_cons, ih (hm.book h.isExact t) hrest, debitSide_book h epsilon hm,
      difference_eq_zero hbalanced ht, add_zero]

end Books

/-- **Double entry conserves**: a booking changes what remains of the accounting equation, plain
accounts included, by what the transaction debits more than it credits. So if every transaction
debits what it credits, the same remains at the opening, after the initial booking and after
any firings of transactions. -/
theorem booking_conserves [EntryOrder] {net : Net ℚ} {decimals : ℤ} (h : net.IsExactBook decimals)
    (epsilon : ℚ) :
    (∀ m : Marking ℚ, net.IsExactIn decimals m → ∀ b ∈ net.transactionBalances epsilon decimals,
      (net.accountingSummary epsilon decimals (net.book decimals m b.transaction)).excess =
        (net.accountingSummary epsilon decimals m).excess + b.debit - b.credit) ∧
    (net.IsBalanced epsilon decimals → ∀ ts : List String, (∀ t ∈ ts, t ∈ net.transactions) →
      (net.accountingSummary epsilon decimals
        (ts.foldl Engine.fire (Engine.start net true decimals)).marking).excess =
          (net.accountingSummary epsilon decimals net.openingBalances).excess) := by
  constructor
  · intro m hm b hb
    obtain ⟨t, -, rfl⟩ := List.mem_map.mp hb
    have hbooked := excess_accountingSummary h epsilon (hm.book h.isExact t)
    rw [excess_accountingSummary h epsilon hm, add_sub_assoc]
    exact hbooked.trans (debitSide_book h epsilon hm t)
  · intro hbalanced ts hts
    have hopening := isExactIn_openingBalances h.isExact
    have hmarking : (ts.foldl Engine.fire (Engine.start net true decimals)).marking =
        (net.transactions ++ ts).foldl (net.book decimals) net.openingBalances :=
      balancesAfter_eq h.isExact hts
    rw [hmarking, excess_accountingSummary h epsilon (hopening.foldl_book h.isExact _),
      excess_accountingSummary h epsilon hopening]
    exact debitSide_foldl_book h hbalanced _ hopening fun t ht =>
      (List.mem_append.mp ht).elim id (hts t)

end Net

/-- A loan that is paid out in part and charged a fee for, with two credits to one account. -/
def loanNet : Net ℚ where
  places := [⟨"cash", 100, some "Asset"⟩, ⟨"loan", 100, some "Liability"⟩,
    ⟨"fees", 0, some "Expense"⟩, ⟨"misc", 5 / 4, some "Account"⟩]
  transitions := [⟨"borrow", some "Transaction"⟩]
  arcs := [⟨.output, "cash", "borrow", 49 / 4⟩, ⟨.output, "fees", "borrow", 3 / 4⟩,
    ⟨.input, "loan", "borrow", 12⟩, ⟨.input, "loan", "borrow", 1⟩]

theorem booking_conserves_loanNet :
    loanNet.IsExactBook 2 ∧ loanNet.IsExactIn 2 [("cash", 3 / 2), ("loan", 1)] ∧
      loanNet.balanceOf 0 2 "borrow" ∈ loanNet.transactionBalances 0 2 ∧
      loanNet.IsBalanced 0 2 ∧
      (loanNet.accountingSummary 0 2
          (loanNet.book 2 [("cash", 3 / 2), ("loan", 1)] "borrow")).excess =
        (loanNet.accountingSummary 0 2 [("cash", 3 / 2), ("loan", 1)]).excess +
          (loanNet.balanceOf 0 2 "borrow").debit - (loanNet.balanceOf 0 2 "borrow").credit ∧
      (loanNet.accountingSummary 0 2
          (["borrow", "borrow"].foldl Engine.fire (Engine.start loanNet true 2)).marking).excess =
        (loanNet.accountingSummary 0 2 loanNet.openingBalances).excess := by
  have hmultiple (k : ℤ) {x : ℚ} (hx : x = k / 100) : x ∈ multiples 2 :=
    mem_multiples.mpr ⟨k, by rw [hx, lastDecimal]; norm_num; ring⟩
  have hbook : loanNet.IsExactBook 2 := by
    refine ⟨by decide, by decide, ?_, ?_⟩
    · simp only [loanNet, List.forall_mem_cons]
      exact ⟨hmultiple 10000 (by norm_num), hmultiple 10000 (by norm_num),
        hmultiple 0 (by norm_num), hmultiple 125 (by norm_num), List.forall_mem_nil _⟩
    · simp only [loanNet, List.forall_mem_cons]
      exact ⟨hmultiple 1225 (by norm_num), hmultiple 75 (by norm_num),
        hmultiple 1200 (by norm_num), hmultiple 100 (by norm_num), List.forall_mem_nil _⟩
  have hm : loanNet.IsExactIn 2 [("cash", 3 / 2), ("loan", 1)] := by
    simp only [Net.IsExactIn, Net.placeNames, loanNet, List.map_cons, List.map_nil,
      List.forall_mem_cons]
    exact ⟨hmultiple 150 (by decide +kernel), hmultiple 100 (by decide +kernel),
      hmultiple 0 (by decide +kernel), hmultiple 0 (by decide +kernel), List.forall_mem_nil _⟩
  have hb : loanNet.balanceOf 0 2 "borrow" ∈ loanNet.transactionBalances 0 2 :=
    List.mem_map_of_mem (by decide)
  have hbalanced : loanNet.IsBalanced 0 2 := by
    unfold Net.IsBalanced
    decide +kernel
  obtain ⟨hone, hrun⟩ := Net.booking_conserves hbook 0
  have hbooked := hone _ hm _ hb
  have hfired := hrun hbalanced ["borrow", "borrow"] (by decide)
  exact ⟨hbook, hm, hb, hbalanced, hbooked, hfired⟩

end NoteGraph
