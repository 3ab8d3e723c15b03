import Mathlib.Algebra.BigOperators.Ring.List
import Mathlib.Algebra.Order.BigOperators.Group.List
import NoteGraph.Ledger.Summary
import NoteGraph.Proofs.Keyed
import NoteGraph.Proofs.Ledger.Dates
import NoteGraph.Proofs.Number.Exact

/-!
# Income and expenses by period

Summing up transactions by a period parts them by the key of their dates: each key that a date has
comes once, in ascending order, with the amounts that are not negative as income and the others
without their sign as expenses. Weeks and months are made of days, so what comes under their keys
is what comes under the days that belong to them, and in exact arithmetic all periods lead to the
same income, expenses and net together.
-/

namespace NoteGraph.Ledger

/-! ### Income and expenses -/

section Amounts

variable (amounts : List ℚ)

theorem sum_incomeOf : (amounts.map incomeOf).sum = (amounts.filter (0 ≤ ·)).sum := by
  induction amounts with
  | nil => rfl
  | cons amount rest ih =>
    have hincome : incomeOf amount = if 0 ≤ amount then amount else 0 := by
      simp [incomeOf, Quantity.atMost]
    rw [List.map_cons, List.sum_cons, ih, hincome, List.filter_cons]
    by_cases h : 0 ≤ amount <;> simp [h]

theorem sum_expenseOf :
    (amounts.map expenseOf).sum = ((amounts.filter (· < 0)).map (|·|)).sum := by
  induction amounts with
  | nil => rfl
  | cons amount rest ih =>
    have hexpense : expenseOf amount = if amount < 0 then -amount else 0 := by
      simp [expenseOf, Quantity.below]
    rw [List.map_cons, List.sum_cons, ih, hexpense, List.filter_cons]
    by_cases h : amount < 0
    · simp [h, abs_of_neg h]
    · simp [h]

end Amounts

/-! ### Keys of periods -/

/-- A day is counted under a key: it is the text of the day itself, that of the Monday of its
week, or that of its year and month. -/
def Period.Covers (period : Period) (key : String) (d : Date) : Prop :=
  match period with
  | daily | categories => key = d.isoText
  | weekly => ∃ m : Date, m.StartsWeek d ∧ key = m.isoText
  | monthly => key = Date.padded 4 d.year ++ "-" ++ Date.padded 2 d.month

theorem monthKey_isoText {d : Date} (h : d.Valid) :
    monthKey d.isoText = Date.padded 4 d.year ++ "-" ++ Date.padded 2 d.month := by
  obtain ⟨hyear, hmonth, -⟩ := h.lt
  have hlength := Date.length_padded (by decide) hyear
  have hlength' := Date.length_padded (by decide) hmonth
  rw [← String.toList_inj, monthKey, String.toList_ofList, Date.toList_isoText,
    List.take_append, hlength]
  simp [List.take_of_length_le, hlength, hlength', String.toList_append]

theorem key_isoText_iff {d : Date} (h : d.Valid) (period : Period) (key : String) :
    period.key d.isoText = .ok key ↔ period.Covers key d := by
  cases period with
  | daily | categories =>
    show Except.ok d.isoText = Except.ok key ↔ key = d.isoText
    rw [Except.ok.injEq]
    exact eq_comm
  | weekly =>
    show weekKey d.isoText = .ok key ↔ ∃ m : Date, m.StartsWeek d ∧ key = m.isoText
    rw [weekKey_isoText h, Except.ok.injEq]
    constructor
    · rintro rfl
      exact ⟨d.weekStart, h.startsWeek, rfl⟩
    · rintro ⟨m, hm, rfl⟩
      rw [hm.eq_weekStart h]
  | monthly =>
    show Except.ok (monthKey d.isoText) = Except.ok key ↔ _
    rw [monthKey_isoText h, Except.ok.injEq]
    exact eq_comm

/-! ### Totals by period -/

/-- The key of a date; the empty text if the date has none. -/
def Period.keyOf (period : Period) (date : String) : String :=
  match period.key date with
  | .ok key => key
  | .error _ => ""

theorem Period.key_eq {date : String} (h : (Date.read date).isOk = true) (period : Period) :
    period.key date = .ok (period.keyOf date) := by
  cases period with
  | daily | categories | monthly => rfl
  | weekly =>
    cases hread : Date.read date with
    | error e =>
      rw [hread] at h
      cases h
    | ok d => simp [keyOf, key, weekKey, hread, Except.map]

/-- The amounts of transactions whose dates have a key. -/
def amountsIn (period : Period) (key : String) (ts : List (Transaction ℚ)) : List ℚ :=
  (ts.filter fun t => period.key t.date = .ok key).map (·.amount)

/-- The totals of the days that belong to a key. -/
def daysIn (period : Period) (key : String) (days : List (PeriodTotal ℚ)) : List (PeriodTotal ℚ) :=
  days.filter fun day => period.key day.key = .ok key

/-- Totals by each period part the amounts of some transactions: every key that a date has comes
once, with the amounts of its dates, which are the totals of its days taken together, and all
periods have the same sums. -/
structure PartMoney (ts : List (Transaction ℚ)) (totals : Period → List (PeriodTotal ℚ)) :
    Prop where
  summarized : ∀ period, summarize period ts = .ok (totals period)
  ascending : ∀ period, ((totals period).map (·.key)).Pairwise (· < ·)
  mem_keys_iff : ∀ period key,
    key ∈ (totals period).map (·.key) ↔ ∃ t ∈ ts, period.key t.date = .ok key
  income : ∀ period, ∀ p ∈ totals period,
    p.income = ((amountsIn period p.key ts).filter (0 ≤ ·)).sum ∧ 0 ≤ p.income
  expenses : ∀ period, ∀ p ∈ totals period,
    p.expenses = (((amountsIn period p.key ts).filter (· < 0)).map (|·|)).sum ∧ 0 ≤ p.expenses
  net : ∀ period, ∀ p ∈ totals period, p.net = p.income - p.expenses
  days : ∀ period, ∀ p ∈ totals period,
    p.income = ((daysIn period p.key (totals .daily)).map (·.income)).sum ∧
    p.expenses = ((daysIn period p.key (totals .daily)).map (·.expenses)).sum ∧
    p.net = ((daysIn period p.key (totals .daily)).map (·.net)).sum
  sums : ∀ period other,
    ((totals period).map (·.income)).sum = ((totals other).map (·.income)).sum ∧
    ((totals period).map (·.expenses)).sum = ((totals other).map (·.expenses)).sum ∧
    ((totals period).map (·.net)).sum = ((totals other).map (·.net)).sum

section Totals

variable {ts : List (Transaction ℚ)} (h : ∀ t ∈ ts, (Date.read t.date).isOk = true)
  (period : Period)

/-- The amounts of transactions by day. -/
def dayEntries (ts : List (Transaction ℚ)) : List (String × ℚ) := ts.map fun t => (t.date, t.amount)

/-- The amounts of transactions by the keys of a period. -/
def entriesBy (period : Period) (ts : List (Transaction ℚ)) : List (String × ℚ) :=
  (dayEntries ts).map fun entry => (period.keyOf entry.1, entry.2)

include h

theorem summarize_eq : summarize period ts = .ok (periodTotals (entriesBy period ts)) := by
  have hkeys : (ts.mapM fun t => (period.key t.date).map fun key => (key, t.amount)) =
      .ok (entriesBy period ts) := by
    induction ts with
    | nil => rfl
    | cons t rest ih =>
      obtain ⟨ht, hrest⟩ := List.forall_mem_cons.mp h
      rw [List.mapM_cons, ih hrest, Period.key_eq ht]
      rfl
  rw [summarize, hkeys]
  rfl

theorem valuesOf_entriesBy (key : String) :
    Keyed.valuesOf (entriesBy period ts) key = amountsIn period key ts := by
  rw [entriesBy, Keyed.valuesOf_map, dayEntries, List.filter_map, List.map_map, amountsIn]
  show List.map Transaction.amount (ts.filter fun t => period.keyOf t.date = key) = _
  apply congrArg (List.map Transaction.amount)
  apply List.filter_congr
  intro t ht
  rw [Period.key_eq (h t ht)]
  simp

end Totals

/-- What comes under a key. -/
def totalUnder (entries : List (String × ℚ)) (key : String) : PeriodTotal ℚ :=
  ⟨key, ((Keyed.valuesOf entries key).map incomeOf).sum,
    ((Keyed.valuesOf entries key).map expenseOf).sum⟩

theorem periodTotals_eq (entries : List (String × ℚ)) :
    periodTotals entries = (Keyed.names entries).map (totalUnder entries) :=
  rfl

theorem map_key_periodTotals (entries : List (String × ℚ)) :
    (periodTotals entries).map (·.key) = Keyed.names entries := by
  rw [periodTotals_eq, List.map_map]
  exact List.map_id _

theorem sum_map_net (totals : List (PeriodTotal ℚ)) : (totals.map (·.net)).sum =
    (totals.map (·.income)).sum - (totals.map (·.expenses)).sum := by
  induction totals with
  | nil => simp
  | cons p rest ih =>
    have hnet : p.net = p.income - p.expenses := rfl
    simp only [List.map_cons, List.sum_cons]
    rw [ih, hnet]
    ring

/-- The income and the expenses of all keys are those of all entries. -/
theorem sums_periodTotals (entries : List (String × ℚ)) :
    ((periodTotals entries).map (·.income)).sum =
        (entries.map fun entry => incomeOf entry.2).sum ∧
      ((periodTotals entries).map (·.expenses)).sum =
        (entries.map fun entry => expenseOf entry.2).sum := by
  have hnames : ∀ entry ∈ entries, entry.1 ∈ Keyed.names entries :=
    fun entry hentry => Keyed.mem_names_iff.mpr ⟨entry, hentry, rfl⟩
  rw [periodTotals_eq, List.map_map, List.map_map]
  exact ⟨Keyed.sum_valuesOf incomeOf (Keyed.nodup_names entries) hnames,
    Keyed.sum_valuesOf expenseOf (Keyed.nodup_names entries) hnames⟩

section Parts

variable {ts : List (Transaction ℚ)} (h : ∀ t ∈ ts, (Date.read t.date).isOk = true)

theorem mem_names_entriesBy {period : Period} {key : String} :
    key ∈ Keyed.names (entriesBy period ts) ↔ ∃ t ∈ ts, period.keyOf t.date = key := by
  rw [Keyed.mem_names_iff, entriesBy, dayEntries, List.map_map]
  constructor
  · rintro ⟨entry, hentry, rfl⟩
    obtain ⟨t, ht, rfl⟩ := List.mem_map.mp hentry
    exact ⟨t, ht, rfl⟩
  · rintro ⟨t, ht, rfl⟩
    exact ⟨_, List.mem_map_of_mem ht, rfl⟩

theorem entriesBy_daily : entriesBy .daily ts = dayEntries ts := List.map_id _

include h

/-- The totals of the days that belong to a key. -/
theorem daysIn_eq (period : Period) (key : String) :
    daysIn period key (periodTotals (dayEntries ts)) =
      ((Keyed.names (dayEntries ts)).filter fun day => period.keyOf day = key).map
        (totalUnder (dayEntries ts)) := by
  rw [daysIn, periodTotals_eq, List.filter_map]
  apply congrArg
  apply List.filter_congr
  intro day hday
  rw [← entriesBy_daily] at hday
  obtain ⟨t, ht, rfl⟩ := mem_names_entriesBy.mp hday
  show decide (period.key t.date = .ok key) = decide (period.keyOf t.date = key)
  rw [Period.key_eq (h t ht)]
  simp only [Except.ok.injEq]

/-- The totals under a key are those of its days taken together. -/
theorem sums_daysIn (period : Period) (key : String) :
    (totalUnder (entriesBy period ts) key).income =
        ((daysIn period key (periodTotals (dayEntries ts))).map (·.income)).sum ∧
      (totalUnder (entriesBy period ts) key).expenses =
        ((daysIn period key (periodTotals (dayEntries ts))).map (·.expenses)).sum := by
  rw [daysIn_eq h, List.map_map, List.map_map]
  exact ⟨Keyed.sum_valuesOf_map incomeOf period.keyOf key,
    Keyed.sum_valuesOf_map expenseOf period.keyOf key⟩

end Parts

/-- **Periods part the money**: transactions whose dates can be read have totals by each period,
and these part the amounts. A key covers a day of the calendar if it is the text of the day, of
the Monday that starts its week, or of its year and month. -/
theorem summarize_parts_money {ts : List (Transaction ℚ)}
    (h : ∀ t ∈ ts, (Date.read t.date).isOk = true) :
    (∃ totals : Period → List (PeriodTotal ℚ), PartMoney ts totals) ∧
      ∀ (period : Period) (key : String) (d : Date), d.Valid →
        (period.key d.isoText = .ok key ↔ period.Covers key d) := by
  refine ⟨⟨fun period => periodTotals (entriesBy period ts), ?_⟩,
    fun period key d hd => key_isoText_iff hd period key⟩
  have htotal : ∀ period, ∀ p ∈ periodTotals (entriesBy period ts),
      p = totalUnder (entriesBy period ts) p.key := by
    intro period p hp
    rw [periodTotals_eq] at hp
    obtain ⟨key, -, rfl⟩ := List.mem_map.mp hp
    rfl
  constructor
  case summarized => exact summarize_eq h
  case ascending =>
    intro period
    rw [map_key_periodTotals]
    exact Keyed.pairwise_lt_names _
  case mem_keys_iff =>
    intro period key
    rw [map_key_periodTotals, mem_names_entriesBy]
    refine exists_congr fun t => and_congr_right fun ht => ?_
    rw [Period.key_eq (h t ht), Except.ok.injEq]
  case income =>
    intro period p hp
    rw [htotal period p hp]
    have hincome : (totalUnder (entriesBy period ts) p.key).income =
        ((amountsIn period p.key ts).filter (0 ≤ ·)).sum := by
      rw [← valuesOf_entriesBy h, ← sum_incomeOf]
      rfl
    rw [hincome]
    refine ⟨rfl, List.sum_nonneg fun amount hamount => ?_⟩
    simpa using (List.mem_filter.mp hamount).2
  case expenses =>
    intro period p hp
    rw [htotal period p hp]
    have hexpenses : (totalUnder (entriesBy period ts) p.key).expenses =
        (((amountsIn period p.key ts).filter (· < 0)).map (|·|)).sum := by
      rw [← valuesOf_entriesBy h, ← sum_expenseOf]
      rfl
    rw [hexpenses]
    refine ⟨rfl, List.sum_nonneg fun amount hamount => ?_⟩
    obtain ⟨negative, -, rfl⟩ := List.mem_map.mp hamount
    exact abs_nonneg negative
  case net => exact fun _ _ _ => rfl
  case days =>
    intro period p hp
    rw [htotal period p hp, entriesBy_daily]
    obtain ⟨hincome, hexpenses⟩ := sums_daysIn h period p.key
    refine ⟨hincome, hexpenses, ?_⟩
    rw [sum_map_net]
    exact congrArg₂ (· - ·) hincome hexpenses
  case sums =>
    have hsame : ∀ (period : Period) (f : ℚ → ℚ),
        ((entriesBy period ts).map fun entry => f entry.2).sum =
          (ts.map fun t => f t.amount).sum := by
      intro period f
      rw [entriesBy, dayEntries, List.map_map, List.map_map]
      rfl
    intro period other
    obtain ⟨hincome, hexpenses⟩ := sums_periodTotals (entriesBy period ts)
    obtain ⟨hincome', hexpenses'⟩ := sums_periodTotals (entriesBy other ts)
    rw [hsame] at hincome hexpenses hincome' hexpenses'
    rw [sum_map_net, sum_map_net, hincome, hexpenses, hincome', hexpenses']
    exact ⟨rfl, rfl, rfl⟩

/-- Transactions around a week that two months share. -/
def turnOfMonth : List (Transaction ℚ) :=
  [{ date := "2024-01-29", description := "Rent", amount := -9, account := "Cash" },
   { date := "2024-02-01", description := "Pay", amount := 20, account := "Cash" },
   { date := "2024-02-01", description := "Tea", amount := -4, account := "Cash" },
   { date := "2024-02-05", description := "Nothing", amount := 0, account := "Cash" }]

theorem summarize_parts_turnOfMonth :
    (∀ t ∈ turnOfMonth, (Date.read t.date).isOk = true) ∧
    (∃ totals : Period → List (PeriodTotal ℚ), PartMoney turnOfMonth totals) ∧
      ∀ (period : Period) (key : String) (d : Date), d.Valid →
        (period.key d.isoText = .ok key ↔ period.Covers key d) := by
  have h : ∀ t ∈ turnOfMonth, (Date.read t.date).isOk = true := by decide +kernel
  exact ⟨h, summarize_parts_money h⟩

example : summarize .weekly turnOfMonth = .ok [⟨"2024-01-29", 20, 13⟩, ⟨"2024-02-05", 0, 0⟩] ∧
    summarize .monthly turnOfMonth = .ok [⟨"2024-01", 0, 9⟩, ⟨"2024-02", 20, 4⟩] := by
  cbv
  exact ⟨rfl, rfl⟩

end NoteGraph.Ledger
