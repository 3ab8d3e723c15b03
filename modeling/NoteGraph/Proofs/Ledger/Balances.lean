import Mathlib.Algebra.BigOperators.Group.Finset.Piecewise
import Mathlib.Algebra.BigOperators.Ring.List
import NoteGraph.Ledger.Balance
import NoteGraph.Proofs.Keyed
import NoteGraph.Proofs.Number.Exact

/-!
# Balances of a ledger

The table of balances that a ledger keeps while it books its transactions is, account by
account, a sum: it starts with what the last declaration of the account opens it with, and
each transaction adds its amount to its account and takes it off its target. No other
transaction matters. The balance that a row shows is this sum up to the row, and what a
transfer adds to one account it takes off another, so that the total changes by the amounts of
the other transactions only.
-/

namespace NoteGraph.Ledger

/-! ### Accounts and their sums -/

section Sums

variable {α : Type}

/-- The accounts that a transaction names, the one it is booked to first. -/
def Transaction.accounts (t : Transaction α) : List String := t.account :: t.target.toList

/-- The accounts of a ledger: those that it declares in the order of their first declarations,
then those that only its transactions name, in the order in which they come up. -/
def accountNames (l : Ledger α) : List String :=
  let declared := l.accounts.map (·.name)
  let named := l.transactions.flatMap Transaction.accounts
  declared.eraseDups ++ (named.filter fun name => !declared.contains name).eraseDups

variable [Quantity α]

/-- What the last declaration of an account opens it with; nothing if there is none. -/
def openingOf (accounts : List (Account α)) (name : String) : α :=
  ((accounts.reverse.find? (·.name == name)).map (·.opening)).getD 0

/-- What a transaction makes of the balance of an account: its amount is added if it is booked
to the account, and then taken off if the account is its target. -/
def Transaction.carry (t : Transaction α) (name : String) (balance : α) : α :=
  let added := if t.account = name then balance + t.amount else balance
  if t.target = some name then added - t.amount else added

/-- What an account of a ledger holds after some transactions. -/
def balanceAfter (l : Ledger α) (ts : List (Transaction α)) (name : String) : α :=
  ts.foldl (fun balance t => t.carry name balance) (openingOf l.accounts name)

end Sums

/-! ### The order of the accounts -/

section Table

variable {α : Type}

theorem map_fst_opening (accounts : List (Account α)) :
    (opening accounts).map (·.1) = (accounts.map (·.name)).eraseDups := by
  induction accounts using List.reverseRecOn with
  | nil => rfl
  | append_singleton accounts a ih =>
    rw [opening, List.foldl_append, List.map_append]
    exact Keyed.map_fst_put_of_eraseDups ih a.name a.opening

theorem map_fst_post [Quantity α] {b : Balances α} {names : List String}
    (h : b.map (·.1) = names.eraseDups) (t : Transaction α) :
    (b.post t).map (·.1) = (names ++ t.accounts).eraseDups := by
  have hbooked := Keyed.map_fst_put_of_eraseDups h t.account (b.get t.account + t.amount)
  unfold Balances.post Transaction.accounts
  cases t.target with
  | none => exact hbooked
  | some target =>
    rw [Option.toList_some, List.append_cons]
    exact Keyed.map_fst_put_of_eraseDups hbooked target _

theorem map_fst_foldl_post [Quantity α] (ts : List (Transaction α)) :
    ∀ {b : Balances α} {names : List String}, b.map (·.1) = names.eraseDups →
      (ts.foldl Balances.post b).map (·.1) =
        (names ++ ts.flatMap Transaction.accounts).eraseDups := by
  induction ts with
  | nil =>
    intro b names h
    rwa [List.flatMap_nil, List.append_nil]
  | cons t rest ih =>
    intro b names h
    rw [List.foldl_cons, List.flatMap_cons, ← List.append_assoc]
    exact ih (map_fst_post h t)

theorem accountNames_eq (l : Ledger α) : l.accountNames =
    (l.accounts.map (·.name) ++ l.transactions.flatMap Transaction.accounts).eraseDups := by
  rw [List.eraseDups_append]
  rfl

theorem nodup_accountNames (l : Ledger α) : l.accountNames.Nodup := by
  rw [accountNames_eq]
  exact nodup_eraseDups _

/-! ### The balance of one account -/

variable [Quantity α]

theorem get_put (b : Balances α) (name other : String) (value : α) :
    Balances.get (Keyed.put b name value) other = if other = name then value else b.get other := by
  rw [Balances.get, Keyed.lookup_put]
  split_ifs <;> rfl

theorem get_opening (accounts : List (Account α)) (name : String) :
    (opening accounts).get name = openingOf accounts name := by
  induction accounts using List.reverseRecOn with
  | nil => rfl
  | append_singleton accounts a ih =>
    have hopening : opening (accounts ++ [a]) = Keyed.put (opening accounts) a.name a.opening := by
      rw [opening, List.foldl_append]
      rfl
    rw [hopening, get_put, openingOf, List.reverse_append, List.reverse_singleton,
      List.singleton_append, List.find?_cons]
    by_cases h : name = a.name
    · simp [h]
    · rw [if_neg h, ih, openingOf, beq_eq_false_iff_ne.mpr (Ne.symm h)]

theorem get_post (b : Balances α) (t : Transaction α) (name : String) :
    (b.post t).get name = t.carry name (b.get name) := by
  have hbooked : Balances.get (Keyed.put b t.account (b.get t.account + t.amount)) name =
      if t.account = name then b.get name + t.amount else b.get name := by
    rw [get_put]
    by_cases h : t.account = name
    · rw [if_pos h, if_pos h.symm, h]
    · rw [if_neg h, if_neg (Ne.symm h)]
  unfold Balances.post Transaction.carry
  cases t.target with
  | none => simpa using hbooked
  | some target =>
    by_cases h : target = name
    · subst h
      simp [get_put, hbooked]
    · simp [get_put, hbooked, h, Ne.symm h]

/-- Booking transactions to the table is summing them account by account. -/
theorem get_foldl_post (ts : List (Transaction α)) (name : String) :
    ∀ b : Balances α, (ts.foldl Balances.post b).get name =
      ts.foldl (fun balance t => t.carry name balance) (b.get name) := by
  induction ts with
  | nil => exact fun _ => rfl
  | cons t rest ih =>
    intro b
    rw [List.foldl_cons, List.foldl_cons, ih, get_post]

theorem get_booked (l : Ledger α) (ts : List (Transaction α)) (name : String) :
    (ts.foldl Balances.post (opening l.accounts)).get name = l.balanceAfter ts name := by
  rw [get_foldl_post, get_opening, balanceAfter]

theorem carry_of_notMem {t : Transaction α} {name : String} (h : name ∉ t.accounts) (balance : α) :
    t.carry name balance = balance := by
  rw [Transaction.accounts, List.mem_cons, Option.mem_toList] at h
  obtain ⟨haccount, htarget⟩ := not_or.mp h
  rw [Transaction.carry, if_neg htarget, if_neg (Ne.symm haccount)]

theorem foldl_carry_filter (ts : List (Transaction α)) (name : String) :
    ∀ balance : α, (ts.filter fun t => name ∈ t.accounts).foldl
      (fun balance t => t.carry name balance) balance =
        ts.foldl (fun balance t => t.carry name balance) balance := by
  induction ts with
  | nil => exact fun _ => rfl
  | cons t rest ih =>
    intro balance
    by_cases h : name ∈ t.accounts
    · simp [h, ih]
    · simp [h, ih, carry_of_notMem h]

/-! ### The whole table and the rows -/

theorem balances_eq (l : Ledger α) : l.transactions.foldl Balances.post (opening l.accounts) =
    l.accountNames.map fun name => (name, l.balanceAfter l.transactions name) := by
  have hnames := map_fst_foldl_post l.transactions (map_fst_opening l.accounts)
  rw [← accountNames_eq] at hnames
  have hbooked := Keyed.eq_map_lookup (hnames ▸ nodup_accountNames l) 0
  rw [hnames] at hbooked
  refine hbooked.trans (List.map_congr_left fun name _ => ?_)
  rw [← get_booked]
  rfl

theorem getElem?_rowsFrom (ts : List (Transaction α)) :
    ∀ (b : Balances α) (i : ℕ), (rowsFrom b ts)[i]? = ts[i]?.map fun t =>
      ⟨t, ((ts.take (i + 1)).foldl Balances.post b).get t.account⟩ := by
  induction ts with
  | nil => exact fun _ _ => rfl
  | cons t rest ih =>
    intro b i
    cases i with
    | zero => rfl
    | succ i => exact ih (b.post t) i

end Table

/-! ### The total -/

theorem carry_eq (t : Transaction ℚ) (name : String) (balance : ℚ) : t.carry name balance =
    balance + (if name = t.account then t.amount else 0) -
      if t.target = some name then t.amount else 0 := by
  unfold Transaction.carry
  simp only [eq_comm (a := t.account)]
  split_ifs <;> simp

/-- A transaction that is no transfer adds its amount to the total; a transfer leaves it. -/
theorem sum_carry {names : Finset String} (t : Transaction ℚ)
    (h : ∀ name ∈ t.accounts, name ∈ names)
    (balance : String → ℚ) : ∑ name ∈ names, t.carry name (balance name) =
      ∑ name ∈ names, balance name + if t.isTransfer then 0 else t.amount := by
  have haccount : t.account ∈ names := h _ List.mem_cons_self
  have htarget : (∑ name ∈ names, if t.target = some name then t.amount else 0) =
      if t.isTransfer then t.amount else 0 := by
    cases ht : t.target with
    | none => simp [Transaction.isTransfer, ht]
    | some target =>
      have hmem : target ∈ names := h _ (by simp [Transaction.accounts, ht])
      simp [Transaction.isTransfer, ht, hmem]
  simp only [carry_eq, Finset.sum_sub_distrib, Finset.sum_add_distrib, Finset.sum_ite_eq',
    if_pos haccount, htarget]
  split_ifs <;> ring

theorem sum_foldl_carry {names : Finset String} (ts : List (Transaction ℚ)) :
    ∀ balance : String → ℚ, (∀ t ∈ ts, ∀ name ∈ t.accounts, name ∈ names) →
      ∑ name ∈ names, ts.foldl (fun balance t => t.carry name balance) (balance name) =
        ∑ name ∈ names, balance name +
          ((ts.filter fun t => !t.isTransfer).map (·.amount)).sum := by
  induction ts with
  | nil => simp
  | cons t rest ih =>
    intro balance h
    obtain ⟨ht, hrest⟩ := List.forall_mem_cons.mp h
    simp only [List.foldl_cons]
    rw [ih (fun name => t.carry name (balance name)) hrest, sum_carry t ht, add_assoc]
    cases htransfer : t.isTransfer <;> simp [htransfer]

theorem sum_balances (l : Ledger ℚ) :
    (l.accountNames.map (l.balanceAfter l.transactions)).sum =
      (l.accountNames.map (openingOf l.accounts)).sum +
        ((l.transactions.filter fun t => !t.isTransfer).map (·.amount)).sum := by
  have hmem : ∀ t ∈ l.transactions, ∀ name ∈ t.accounts, name ∈ l.accountNames.toFinset := by
    intro t ht name hname
    rw [List.mem_toFinset, accountNames_eq, List.mem_eraseDups]
    exact List.mem_append_right _ (List.mem_flatMap.mpr ⟨t, ht, hname⟩)
  rw [← List.sum_toFinset _ (nodup_accountNames l), ← List.sum_toFinset _ (nodup_accountNames l)]
  exact sum_foldl_carry l.transactions (openingOf l.accounts) hmem

/-- **Balances are sums**: the books of a ledger list every account once, in the order in which
accounts come up, with its opening and the amounts of the transactions that name it, in their
order; a row shows the same sum up to its transaction. In exact arithmetic all balances
together are the openings and the amounts of the transactions that are no transfers. -/
theorem compute_eq_sums :
    (∀ {α : Type} [Quantity α] (l : Ledger α) (label : String),
      l.accountNames.Nodup ∧
      (compute l label).balances =
        l.accountNames.map (fun name => (name, l.balanceAfter l.transactions name)) ∧
      (∀ i : ℕ, (compute l label).rows[i]? = l.transactions[i]?.map fun t : Transaction α =>
        ⟨t, l.balanceAfter (l.transactions.take (i + 1)) t.account⟩) ∧
      ∀ ts name, l.balanceAfter ts name =
        l.balanceAfter (ts.filter fun t => name ∈ t.accounts) name) ∧
    ∀ (l : Ledger ℚ) (label : String), ((compute l label).balances.map (·.2)).sum =
      (l.accountNames.map (openingOf l.accounts)).sum +
        ((l.transactions.filter fun t => !t.isTransfer).map (·.amount)).sum := by
  constructor
  · intro α _ l label
    refine ⟨nodup_accountNames l, balances_eq l, fun i => ?_, fun ts name => ?_⟩
    · change (rowsFrom (opening l.accounts) l.transactions)[i]? = _
      rw [getElem?_rowsFrom]
      simp only [get_booked]
    · exact (foldl_carry_filter ts name _).symm
  · intro l label
    change ((l.transactions.foldl Balances.post (opening l.accounts)).map (·.2)).sum = _
    rw [balances_eq, List.map_map]
    exact sum_balances l

/-- A transfer of an account to itself leaves it as it was, and the last of two openings
counts. -/
example :
    let l : Ledger ℚ :=
      { accounts := [⟨"cash", 5⟩, ⟨"cash", 2⟩]
        transactions := [⟨"2024-01-01", "", 3, "cash", some "cash", [], none⟩,
          ⟨"2024-01-02", "", 1, "till", some "cash", [], none⟩] }
    (compute l "").balances = [("cash", 1), ("till", 1)] := by
  decide +kernel

end NoteGraph.Ledger
