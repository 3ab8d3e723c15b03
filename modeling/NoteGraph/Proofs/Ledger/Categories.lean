import NoteGraph.Ledger.Balance
import NoteGraph.Ledger.OfText
import NoteGraph.Proofs.Keyed
import NoteGraph.Proofs.Number.Exact

/-!
# Totals of categories

A transaction counts under a category as often as it lists it; the filter on a category keeps a
transaction that lists it at all. The two find the same transactions, so a category has a total
exactly when the filter keeps something. The total is that of the kept transactions as long as
none of them lists the category twice; from then on the amount is counted again. Besides, a report
adds amounts up in its own way, which need not give their sum in order: it leaves out what is no
number, and may make roundings good. In exact arithmetic both sums are the same.
-/

namespace NoteGraph.Ledger

variable {α : Type}

/-! ### The filter on one category -/

theorem ofCategories_singleton (category : String) (ts : List (Transaction α)) :
    ofCategories [category] ts = ts.filter fun t => category ∈ t.categories := by
  rw [ofCategories, if_neg (by simp)]
  refine List.filter_congr fun t _ => ?_
  rw [Bool.eq_iff_iff]
  simp

theorem ofCategories_ne_nil_iff {category : String} {ts : List (Transaction α)} :
    ofCategories [category] ts ≠ [] ↔ ∃ t ∈ ts, category ∈ t.categories := by
  simp [ofCategories_singleton, List.filter_eq_nil_iff]

/-! ### Amounts under a category -/

/-- The amounts of transactions under a category, each as often as its transaction lists the
category. -/
def amountsUnder (category : String) (ts : List (Transaction α)) : List α :=
  ts.flatMap fun t => List.replicate (t.categories.count category) t.amount

theorem amountsUnder_eq {category : String} {ts : List (Transaction α)}
    (h : ∀ t ∈ ts, t.categories.count category ≤ 1) :
    amountsUnder category ts = (ofCategories [category] ts).map (·.amount) := by
  induction ts with
  | nil => rfl
  | cons t rest ih =>
    obtain ⟨ht, hrest⟩ := List.forall_mem_cons.mp h
    have hrest := ih hrest
    rw [ofCategories_singleton] at hrest ⊢
    rw [amountsUnder] at hrest ⊢
    rw [List.flatMap_cons, hrest, List.filter_cons]
    by_cases hmem : category ∈ t.categories
    · have hone : t.categories.count category = 1 :=
        Nat.le_antisymm ht (List.count_pos_iff.mpr hmem)
      rw [if_pos (decide_eq_true hmem), hone]
      rfl
    · rw [if_neg (by simpa using hmem), List.count_eq_zero.mpr hmem]
      rfl

/-! ### Entries -/

section Entries

variable {label category : String} {ts : List (Transaction α)}

/-- The label of transactions without a category is out of the way of every category but
itself. -/
theorem count_entries (h : category ≠ label) (t : Transaction α) :
    ((t.entries label).map (·.1)).count category = t.categories.count category := by
  simp only [Transaction.entries, List.map_map, Function.comp_def, List.map_id']
  by_cases hempty : t.categories.isEmpty = true
  · rw [if_pos hempty, List.isEmpty_iff.mp hempty, List.count_nil]
    exact List.count_eq_zero.mpr (by simpa using h)
  · rw [if_neg hempty]

theorem mem_entries_iff (h : category ≠ label) (t : Transaction α) :
    category ∈ (t.entries label).map (·.1) ↔ category ∈ t.categories := by
  rw [← List.count_pos_iff, count_entries h, List.count_pos_iff]

theorem valuesOf_entries (t : Transaction α) :
    Keyed.valuesOf (t.entries label) category =
      List.replicate (((t.entries label).map (·.1)).count category) t.amount := by
  rw [Transaction.entries]
  induction (if t.categories.isEmpty then [label] else t.categories) with
  | nil => rfl
  | cons name rest ih =>
    rw [Keyed.valuesOf] at ih ⊢
    rw [List.map_cons, List.filterMap_cons, ih]
    by_cases heq : name = category
    · simp [heq, List.replicate_succ]
    · simp [heq]

theorem valuesOf_flatMap_entries (h : category ≠ label) :
    Keyed.valuesOf (ts.flatMap (·.entries label)) category = amountsUnder category ts := by
  rw [Keyed.valuesOf, List.filterMap_flatMap]
  refine List.flatMap_congr fun t _ => ?_
  rw [← count_entries h t]
  exact valuesOf_entries t

theorem mem_names_entries (h : category ≠ label) :
    category ∈ Keyed.names (ts.flatMap (·.entries label)) ↔
      ofCategories [category] ts ≠ [] := by
  rw [Keyed.mem_names_iff, ofCategories_ne_nil_iff]
  simp only [List.mem_flatMap, ← mem_entries_iff h, List.mem_map]
  grind

end Entries

/-! ### Totals -/

section Totals

variable [Quantity α] {label category : String} {ts : List (Transaction α)}

/-- The total of a category, if there is one. -/
theorem mem_categoryTotals_iff (h : category ≠ label) {total : CategoryTotal α}
    (hc : total.category = category) :
    total ∈ categoryTotals label ts ↔ ofCategories [category] ts ≠ [] ∧
      total = ⟨category, Quantity.total ((amountsUnder category ts).filter Quantity.isNumber),
        ((amountsUnder category ts).filter Quantity.isNumber).length⟩ := by
  rw [← mem_names_entries h, categoryTotals, List.mem_map]
  constructor
  · rintro ⟨name, hname, rfl⟩
    obtain rfl : name = category := hc
    rw [valuesOf_flatMap_entries h]
    exact ⟨hname, rfl⟩
  · rintro ⟨hname, rfl⟩
    exact ⟨category, hname, by rw [valuesOf_flatMap_entries h]⟩

theorem exists_categoryTotal_iff (h : category ≠ label) :
    (∃ total ∈ categoryTotals label ts, total.category = category) ↔
      ofCategories [category] ts ≠ [] := by
  constructor
  · rintro ⟨total, htotal, hc⟩
    exact ((mem_categoryTotals_iff h hc).mp htotal).1
  · intro hne
    exact ⟨_, (mem_categoryTotals_iff h rfl).mpr ⟨hne, rfl⟩, rfl⟩

/-- The sum of amounts in their order. -/
def sum (amounts : List α) : α := amounts.foldl (· + ·) 0

/-- The totals of a ledger agree on a category with the filter on it: the category has a total
exactly when the filter keeps something, count and total are those of what it keeps, and no
transaction counts twice. -/
structure AgreesOnCategory (l : Ledger α) (label category : String) : Prop where
  listed : (∃ total ∈ (compute l label).categories, total.category = category) ↔
    ofCategories [category] l.transactions ≠ []
  count : ∀ total ∈ (compute l label).categories, total.category = category →
    total.count = (ofCategories [category] l.transactions).length
  total : ∀ total ∈ (compute l label).categories, total.category = category →
    total.total = sum ((ofCategories [category] l.transactions).map (·.amount))
  once : ∀ t ∈ l.transactions, ((t.entries label).map (·.1)).count category ≤ 1

/-- Transactions whose amounts a report adds up in their order: all of them are numbers, and their
total is their sum. -/
structure AddsUp (ts : List (Transaction α)) : Prop where
  isNumber : ∀ t ∈ ts, Quantity.isNumber t.amount = true
  total : ts ≠ [] → Quantity.total (ts.map (·.amount)) = sum (ts.map (·.amount))

theorem AddsUp.filter_amounts (h : AddsUp ts) :
    (ts.map (·.amount)).filter Quantity.isNumber = ts.map (·.amount) :=
  List.filter_eq_self.mpr (List.forall_mem_map.mpr h.isNumber)

/-- In exact arithmetic every report adds amounts up. -/
theorem addsUp (ts : List (Transaction ℚ)) : AddsUp ts :=
  ⟨fun t _ => decide_eq_true (le_refl t.amount), fun _ => List.sum_eq_foldl⟩

/-- A ledger agrees on a category that no transaction lists twice, where a report adds up what the
filter keeps. -/
theorem agreesOnCategory (l : Ledger α) (h : category ≠ label)
    (honce : ∀ t ∈ l.transactions, t.categories.count category ≤ 1)
    (hsum : AddsUp (ofCategories [category] l.transactions)) :
    AgreesOnCategory l label category := by
  have htotal : ∀ total ∈ (compute l label).categories, total.category = category →
      ofCategories [category] l.transactions ≠ [] ∧
        total = ⟨category,
          Quantity.total ((ofCategories [category] l.transactions).map (·.amount)),
          ((ofCategories [category] l.transactions).map (·.amount)).length⟩ := by
    intro total hmem hc
    obtain ⟨hne, heq⟩ := (mem_categoryTotals_iff h hc).mp hmem
    rw [amountsUnder_eq honce, hsum.filter_amounts] at heq
    exact ⟨hne, heq⟩
  constructor
  case listed => exact exists_categoryTotal_iff h
  case count =>
    intro total hmem hc
    rw [(htotal total hmem hc).2]
    exact List.length_map _
  case total =>
    intro total hmem hc
    obtain ⟨hne, heq⟩ := htotal total hmem hc
    rw [heq]
    exact hsum.total hne
  case once =>
    intro t ht
    rw [count_entries h t]
    exact honce t ht

/-- Where a ledger agrees on a category a report adds up what the filter keeps. -/
theorem AgreesOnCategory.addsUp {l : Ledger α} (hagrees : AgreesOnCategory l label category)
    (h : category ≠ label) : AddsUp (ofCategories [category] l.transactions) := by
  have honce : ∀ t ∈ l.transactions, t.categories.count category ≤ 1 := by
    intro t ht
    rw [← count_entries h t]
    exact hagrees.once t ht
  have hmem : ∀ hne : ofCategories [category] l.transactions ≠ [], _ :=
    fun hne => (mem_categoryTotals_iff h rfl).mpr ⟨hne, rfl⟩
  rw [amountsUnder_eq honce] at hmem
  have hnumber : ∀ t ∈ ofCategories [category] l.transactions,
      Quantity.isNumber t.amount = true := by
    intro t ht
    have hcount := hagrees.count _ (hmem (List.ne_nil_of_mem ht)) rfl
    rw [← List.length_map (f := fun t : Transaction α => t.amount),
      List.length_filter_eq_length_iff] at hcount
    exact hcount _ (List.mem_map_of_mem ht)
  refine ⟨hnumber, fun hne => ?_⟩
  have htotal := hagrees.total _ (hmem hne) rfl
  rwa [List.filter_eq_self.mpr (List.forall_mem_map.mpr hnumber)] at htotal

/-- **Totals and the filter**: on a category other than the label of transactions without one,
totals and filter agree exactly when no transaction lists the category twice and a report adds up
the amounts that the filter keeps in their order; in exact arithmetic, exactly when no transaction
lists the category twice. In any case the category has a total exactly when the filter keeps some
transaction, and this total and its count are those of the amounts in their order, each taken as
often as its transaction lists the category, without those that are no numbers. -/
theorem agreesOnCategory_iff {label category : String} (h : category ≠ label) :
    (∀ {α : Type} [Quantity α] (l : Ledger α),
      (AgreesOnCategory l label category ↔
        (∀ t ∈ l.transactions, t.categories.count category ≤ 1) ∧
          AddsUp (ofCategories [category] l.transactions)) ∧
      ((∃ total ∈ (compute l label).categories, total.category = category) ↔
        ofCategories [category] l.transactions ≠ []) ∧
      ∀ total ∈ (compute l label).categories, total.category = category →
        let amounts := (amountsUnder category l.transactions).filter Quantity.isNumber
        total.total = Quantity.total amounts ∧ total.count = amounts.length) ∧
    ∀ l : Ledger ℚ, AgreesOnCategory l label category ↔
      ∀ t ∈ l.transactions, t.categories.count category ≤ 1 := by
  have hiff : ∀ {α : Type} [Quantity α] (l : Ledger α), AgreesOnCategory l label category ↔
      (∀ t ∈ l.transactions, t.categories.count category ≤ 1) ∧
        AddsUp (ofCategories [category] l.transactions) := by
    intro α _ l
    refine ⟨fun hagrees => ⟨fun t ht => ?_, hagrees.addsUp h⟩, fun hboth => ?_⟩
    · rw [← count_entries h t]
      exact hagrees.once t ht
    · exact agreesOnCategory l h hboth.1 hboth.2
  refine ⟨fun l => ⟨hiff l, exists_categoryTotal_iff h, fun total hmem hc => ?_⟩, fun l => ?_⟩
  · obtain ⟨-, heq⟩ := (mem_categoryTotals_iff h hc).mp hmem
    rw [heq]
    exact ⟨rfl, rfl⟩
  · rw [hiff l]
    exact and_iff_left (addsUp _)

end Totals

/-- A ledger with a category that starts like another, a row without any and a repeated one. -/
def household : Ledger Number where
  transactions :=
    [{ date := "2024-01-01", description := "Tea", amount := .int (-4), account := "Cash"
       categories := ["food", "foodie"] },
     { date := "2024-01-02", description := "Rent", amount := .int (-9), account := "Cash" },
     { date := "2024-01-03", description := "Sofa", amount := .int (-7), account := "Cash"
       categories := ["home", "food", "home"] }]

theorem agreesOnCategory_household : "food" ≠ uncategorized ∧
    AgreesOnCategory household uncategorized "food" := by
  have h : "food" ≠ uncategorized := by decide
  have hsum : AddsUp (ofCategories ["food"] household.transactions) :=
    ⟨by decide +kernel, by decide +kernel⟩
  exact ⟨h, ((agreesOnCategory_iff h).1 household).1.mpr ⟨by decide, hsum⟩⟩

/-- The amount of a row that repeats its category is taken twice. -/
theorem not_agreesOnCategory_repeated : ¬AgreesOnCategory
    (ofText "| 2024-01-01 | Tea | -4 | Cash | #food #food |") uncategorized "food" := by
  intro h
  have htwice : ∃ t ∈ (ofText "| 2024-01-01 | Tea | -4 | Cash | #food #food |").transactions,
      1 < ((t.entries uncategorized).map (·.1)).count "food" := by
    decide +kernel
  obtain ⟨t, ht, hcount⟩ := htwice
  exact absurd (h.once t ht) (Nat.not_le.mpr hcount)

end NoteGraph.Ledger
