import NoteGraph.Net.RowSort
import NoteGraph.Proofs.Engine.BookingOrder
import NoteGraph.Proofs.Operation.Rearranged

/-!
# The order of transactions in a text

The numbers of a net can be read as fractions. When the texts of two nets keep the same books,
the nets have the same transactions, with the same effects, and open with the same balances. So
after all runs they have the same balances: where the blocks of transactions stand in a text
without morph headings does not matter. With morph headings it can matter, because records of
different morphs may share an identifier, and then only the first of them makes an arc.
-/

namespace NoteGraph

open Exact

/-! ### Other quantities -/

section Map

variable {α β : Type} (f : α → β)

/-- The place with another quantity. -/
def Place.map (p : Place α) : Place β := ⟨p.name, f p.tokens, p.role⟩

/-- The arc with another weight. -/
def Arc.map (a : Arc α) : Arc β := ⟨a.direction, a.place, a.transition, f a.weight⟩

namespace Net

/-- The net with its quantities replaced. -/
def map (net : Net α) : Net β where
  places := net.places.map (Place.map f)
  transitions := net.transitions
  arcs := net.arcs.map (Arc.map f)

variable (net : Net α)

@[simp] theorem placeNames_map : (net.map f).placeNames = net.placeNames := by
  rw [placeNames, map, List.map_map]
  rfl

@[simp] theorem role?_map (name : String) : (net.map f).role? name = net.role? name := by
  have hfind : (net.map f).places.find? (·.name == name) =
      (net.places.find? (·.name == name)).map (Place.map f) := List.find?_map
  rw [role?, role?, hfind]
  cases net.places.find? (·.name == name) <;> rfl

theorem transactions_map [Quantity α] [Quantity β] :
    (net.map f).transactions = net.transactions := by
  refine List.filter_congr fun t _ => ?_
  rw [isTransaction, isTransaction, role?_map]

end Net

end Map

/-! ### The net of a graph -/

namespace Graph.IsNetOf

variable {g : Graph} {accounting : Bool} {tokens : Number} {net : Net Number}

theorem role?_place (h : g.IsNetOf accounting tokens net) {id : String}
    (hid : id ∈ net.placeNames) : net.role? id = (g.node? id).map (·.role) := by
  obtain ⟨p, hp, hname⟩ := List.mem_map.mp hid
  cases hfound : net.places.find? (·.name == id) with
  | none => exact absurd (by simpa using hname) (List.find?_eq_none.mp hfound p hp)
  | some found =>
    have hmem := List.mem_of_find?_eq_some hfound
    rw [h.places] at hmem
    obtain ⟨id', -, rfl⟩ := List.mem_map.mp hmem
    obtain rfl : id' = id := by simpa [placeOf] using List.find?_some hfound
    rw [Net.role?, hfound]
    rfl

theorem role?_transition (h : g.IsNetOf accounting tokens net)
    (hn : (g.nodes.map (·.id)).Nodup) {n : Node} (hmem : n ∈ g.transitionNodes) :
    net.role? n.id = some n.role := by
  have hname : n.id ∈ net.transitionNames :=
    h.transitionNames_eq ▸ List.mem_map_of_mem hmem
  have hplaces : net.places.find? (·.name == n.id) = none := by
    rw [List.find?_eq_none]
    rintro p hp heq
    have hplace : n.id ∈ g.placeIds accounting :=
      h.placeNames_eq ▸ beq_iff_eq.mp heq ▸ List.mem_map_of_mem hp
    have htransition := h.mem_transitionNames.mp hname
    rw [isTransition_of_mem_placeIds hplace] at htransition
    cases htransition
  rw [Net.role?, hplaces]
  obtain ⟨t, ht, heq⟩ := List.mem_map.mp hname
  cases hfound : net.transitions.find? (·.name == n.id) with
  | none => exact absurd (by simpa using heq) (List.find?_eq_none.mp hfound t ht)
  | some found =>
    have hfoundMem := List.mem_of_find?_eq_some hfound
    rw [h.transitions] at hfoundMem
    obtain ⟨n', hn', rfl⟩ := List.mem_map.mp hfoundMem
    have hid : n'.id = n.id := by simpa using List.find?_some hfound
    obtain rfl := List.inj_on_of_nodup_map hn (List.mem_filter.mp hn').1
      (List.mem_filter.mp hmem).1 hid
    rfl

theorem nodup_transitionNames (h : g.IsNetOf accounting tokens net)
    (hn : (g.nodes.map (·.id)).Nodup) : net.transitionNames.Nodup := by
  rw [h.transitionNames_eq]
  exact hn.sublist (List.filter_sublist.map _)

/-- The transactions of the net are the nodes of this role. -/
theorem mem_transactions (h : g.IsNetOf accounting tokens net)
    (hn : (g.nodes.map (·.id)).Nodup) {t : String} :
    t ∈ net.transactions ↔ (g.node? t).map (·.role) = some transactionRole := by
  have hrole : ∀ n ∈ g.transitionNodes, net.role? n.id = (g.node? n.id).map (·.role) := by
    intro n hmem
    rw [node?_of_mem hn (List.mem_filter.mp hmem).1]
    exact h.role?_transition hn hmem
  rw [Net.transactions, List.mem_filter, Net.isTransaction, beq_iff_eq, h.transitionNames_eq,
    List.mem_map]
  constructor
  · rintro ⟨⟨n, hmem, rfl⟩, htransaction⟩
    rwa [← hrole n hmem]
  · intro hnode
    obtain ⟨n, hfound, heq⟩ := Option.map_eq_some_iff.mp hnode
    obtain rfl : n.id = t := by simpa using List.find?_some hfound
    have hmem : n ∈ g.transitionNodes :=
      List.mem_filter.mpr ⟨List.mem_of_find?_eq_some hfound, by rw [heq]; rfl⟩
    exact ⟨⟨n, hmem, rfl⟩, (hrole n hmem).trans hnode⟩

/-- What a place opens with, if it is one. -/
theorem get_openingBalances (h : g.IsNetOf true tokens net) (value : Number → ℚ) (id : String) :
    (net.map value).openingBalances.get id =
      if id ∈ g.placeIds true then value (.float (g.opening id)) else 0 := by
  have hnames := (net.map value).map_fst_openingBalances
  rw [Net.placeNames_map] at hnames
  rw [← h.placeNames_eq]
  split_ifs with hid
  · obtain ⟨p, hp, rfl⟩ := List.mem_map.mp hid
    have hmem : (p.name, value p.tokens) ∈ (net.map value).openingBalances :=
      List.mem_map_of_mem (List.mem_map_of_mem hp)
    rw [Marking.get_of_mem (hnames ▸ h.nodup) hmem, h.tokens_eq_opening hp]
  · rw [Marking.get, Keyed.lookup_eq_none_of_notMem (hnames ▸ hid)]
    rfl

end Graph.IsNetOf

/-! ### Nets of the same books -/

namespace SameBooks

variable {ops ops' : List Operation} {tokens tokens' : Number} {net net' : Net Number}
  {value : Number → ℚ}

theorem transactions_perm (h : SameBooks ops ops')
    (hnet : (Graph.ofOperations ops).IsNetOf true tokens net)
    (hnet' : (Graph.ofOperations ops').IsNetOf true tokens' net') :
    net.transactions.Perm net'.transactions := by
  have hnodup (ops : List Operation) := Graph.nodup_map_id_nodes ops
  have hnames {ops : List Operation} {tokens : Number} {net : Net Number}
      (hnet : (Graph.ofOperations ops).IsNetOf true tokens net) : net.transactions.Nodup :=
    hnet.nodup_transitionNames (hnodup ops) |>.filter _
  refine (List.perm_ext_iff_of_nodup (hnames hnet) (hnames hnet')).mpr fun t => ?_
  rw [hnet.mem_transactions (hnodup ops), hnet'.mem_transactions (hnodup ops'),
    Graph.role_node?, Graph.role_node?]
  exact (h.nodes t).role_iff (by decide)

/-- The places open with the same amounts. -/
theorem get_openingBalances_eq (h : SameBooks ops ops')
    (hnet : (Graph.ofOperations ops).IsNetOf true tokens net)
    (hnet' : (Graph.ofOperations ops').IsNetOf true tokens' net')
    (hzero : value (.float 0) = 0) (id : String) :
    (net.map value).openingBalances.get id = (net'.map value).openingBalances.get id := by
  rw [hnet.get_openingBalances, hnet'.get_openingBalances]
  by_cases hid : id ∈ (Graph.ofOperations ops).placeIds true
  · by_cases hid' : id ∈ (Graph.ofOperations ops').placeIds true
    · rw [if_pos hid, if_pos hid',
        Graph.opening_congr h (Graph.isTransition_of_mem_placeIds hid)]
    · rw [if_pos hid, if_neg hid', Graph.opening_eq_zero h hid hid', hzero]
  · by_cases hid' : id ∈ (Graph.ofOperations ops').placeIds true
    · rw [if_neg hid, if_pos hid', Graph.opening_eq_zero h.symm hid' hid, hzero]
    · rw [if_neg hid, if_neg hid']

theorem map_arcs_perm (h : SameBooks ops ops')
    (hnet : (Graph.ofOperations ops).IsNetOf true tokens net)
    (hnet' : (Graph.ofOperations ops').IsNetOf true tokens' net') :
    (net.map value).arcs.Perm (net'.map value).arcs := by
  refine List.Perm.map _ ?_
  rw [hnet.arcs, hnet'.arcs]
  exact Graph.arcs_perm h

/-- The transactions have the same effects. -/
theorem effect_eq [EntryOrder] (h : SameBooks ops ops')
    (hnet : (Graph.ofOperations ops).IsNetOf true tokens net)
    (hnet' : (Graph.ofOperations ops').IsNetOf true tokens' net') (t place : String) :
    (net.map value).effect t place = (net'.map value).effect t place := by
  have hplaces {ops : List Operation} {tokens : Number} {net : Net Number}
      (hnet : (Graph.ofOperations ops).IsNetOf true tokens net) :
      ∀ a ∈ (net.map value).arcs, a.place ∈ net.placeNames := by
    intro a ha
    obtain ⟨b, hb, rfl⟩ := List.mem_map.mp ha
    exact (hnet.ends_of_mem_arcs hb).2.1
  have harcs : (net.map value).arcs.Perm (net'.map value).arcs := h.map_arcs_perm hnet hnet'
  refine Net.effect_congr (by simpa using hnet.nodup) (by simpa using hnet'.nodup)
    (by simpa using hplaces hnet) (by simpa using hplaces hnet') harcs (fun a ha => ?_) t place
  rw [Net.role?_map, Net.role?_map, hnet.role?_place (hplaces hnet a ha),
    hnet'.role?_place (hplaces hnet' a (harcs.mem_iff.mp ha)), Graph.role_node?,
    Graph.role_node?]
  exact (h.nodes a.place).normalSide_eq

theorem isExact (h : SameBooks ops ops')
    (hnet : (Graph.ofOperations ops).IsNetOf true tokens net)
    (hnet' : (Graph.ofOperations ops').IsNetOf true tokens' net')
    (hzero : value (.float 0) = 0) {decimals : ℤ} (hexact : (net.map value).IsExact decimals) :
    (net'.map value).IsExact decimals := by
  have hnodup' : (net'.map value).placeNames.Nodup := by simpa using hnet'.nodup
  refine ⟨hnodup', fun p hp => ?_, fun a ha => ?_⟩
  · have hmem : (p.name, p.tokens) ∈ (net'.map value).openingBalances := List.mem_map_of_mem hp
    rw [← Marking.get_of_mem ((Net.map_fst_openingBalances _).symm ▸ hnodup') hmem,
      ← h.get_openingBalances_eq hnet hnet' hzero]
    by_cases hplace : p.name ∈ (net.map value).placeNames
    · exact Net.isExactIn_openingBalances hexact p.name hplace
    · rw [← Net.map_fst_openingBalances] at hplace
      rw [Marking.get, Keyed.lookup_eq_none_of_notMem hplace]
      exact zero_mem _
  · exact hexact.weights a ((h.map_arcs_perm hnet hnet').mem_iff.mpr ha)

/-- **Nets of the same books have the same balances** after all runs. -/
theorem sameBalances [EntryOrder] (h : SameBooks ops ops')
    (hnet : (Graph.ofOperations ops).IsNetOf true tokens net)
    (hnet' : (Graph.ofOperations ops').IsNetOf true tokens' net')
    (hzero : value (.float 0) = 0) {decimals : ℤ} (hexact : (net.map value).IsExact decimals) :
    (net.map value).SameBalances decimals (net'.map value) := by
  have htransactions : (net.map value).transactions.Perm (net'.map value).transactions := by
    rw [Net.transactions_map, Net.transactions_map]
    exact h.transactions_perm hnet hnet'
  rw [Net.sameBalances_iff hexact (h.isExact hnet hnet' hzero hexact) htransactions]
  exact fun place => ⟨h.get_openingBalances_eq hnet hnet' hzero place,
    fun t _ => h.effect_eq hnet hnet' t place⟩

end SameBooks

/-! ### Rearranged texts -/

/-- A text whose books are those of a text that has an accounting net has one too. -/
theorem Rearranged.exists_toNet {text text' : String} (h : Rearranged text text')
    {tokens : Number} {net : Net Number}
    (hnet : ((Graph.ofOperations (operationsOf text)).toNet true tokens).1 = .ok net) :
    ∃ net', ((Graph.ofOperations (operationsOf text')).toNet true tokens).1 = .ok net' := by
  have hn := Graph.nodup_map_id_nodes (operationsOf text')
  have hweights : ∀ e ∈ (Graph.ofOperations (operationsOf text')).arcEdges,
      e.weight.isTooLarge = false :=
    fun e he => isTooLarge_weight (List.mem_filter.mp (List.mem_filter.mp he).1).1
  have hfinite : (Graph.ofOperations (operationsOf text')).OpensFinite true tokens :=
    Graph.opensFinite_congr h.sameBooks (Graph.opensFinite_of_toNet hnet)
  rw [Graph.toNet_eq (Graph.nodup_placeIds hn true) hweights,
    Graph.firstRefusal?_eq_none_iff.mpr hfinite]
  exact ⟨_, rfl⟩

/-- **Booking in any order**: after any firings of transactions, each balance is its rounded
opening and, for every transaction, once and once more for each firing, what it debits and
credits, with the signs of the account. So the order of the firings does not matter. Two nets
with the same transactions have the same balances exactly if they open with the same balances
and their transactions have the same effects; so it is, in particular, for the nets of texts
without morph headings that differ only in where the blocks of transactions stand. -/
theorem books_in_any_order [EntryOrder] {net : Net ℚ} {decimals : ℤ}
    (h : net.IsExact decimals) (hn : net.transitionNames.Nodup) :
    (∀ ts : List String, (∀ t ∈ ts, t ∈ net.transactions) →
      (net.balancesAfter decimals ts = net.places.map fun p =>
        (p.name, Quantity.roundTo decimals p.tokens +
          ∑ t ∈ net.transactions.toFinset, (1 + (ts.count t : ℚ)) * net.effect t p.name)) ∧
      ∀ ts', ts.Perm ts' → net.balancesAfter decimals ts' = net.balancesAfter decimals ts) ∧
    (∀ net' : Net ℚ, net'.IsExact decimals → net.transactions.Perm net'.transactions →
      (net.SameBalances decimals net' ↔
        ∀ place, net.openingBalances.get place = net'.openingBalances.get place ∧
          ∀ t ∈ net.transactions, net.effect t place = net'.effect t place)) ∧
    ∀ (text text' : String) (value : Number → ℚ) (tokens : Number) (numbers : Net Number),
      Rearranged text text' → value (.float 0) = 0 →
      ((Graph.ofOperations (operationsOf text)).toNet true tokens).1 = .ok numbers →
      numbers.map value = net →
      ∃ numbers', ((Graph.ofOperations (operationsOf text')).toNet true tokens).1 = .ok numbers' ∧
        (numbers'.map value).IsExact decimals ∧
        net.SameBalances decimals (numbers'.map value) := by
  refine ⟨fun ts hts => ⟨Net.balancesAfter_eq_map h hn hts, fun ts' hperm =>
    Net.balancesAfter_perm h hn hts hperm⟩, fun net' h' ht => Net.sameBalances_iff h h' ht, ?_⟩
  rintro text text' value tokens numbers hrearranged hzero hnumbers rfl
  obtain ⟨numbers', hnumbers'⟩ := hrearranged.exists_toNet hnumbers
  have hnet := Graph.isNetOf_of_toNet hnumbers
  have hnet' := Graph.isNetOf_of_toNet hnumbers'
  exact ⟨numbers', hnumbers', hrearranged.sameBooks.isExact hnet hnet' hzero h,
    hrearranged.sameBooks.sameBalances hnet hnet' hzero h⟩

/-! ### Two small texts -/

/-- The whole number that a number is, or nothing. -/
def Number.whole (n : Number) : ℚ := (n.toBinary64.toInt?.getD 0 : ℤ)

theorem intCast_mem_multiples {decimals : ℤ} (h : 0 ≤ decimals) (k : ℤ) :
    (k : ℚ) ∈ multiples decimals := by
  obtain ⟨d, rfl⟩ := Int.eq_ofNat_of_zero_le h
  refine mem_multiples.mpr ⟨k * 10 ^ d, ?_⟩
  rw [lastDecimal, zpow_neg, zpow_natCast]
  push_cast
  field_simp

theorem isExact_whole {net : Net Number} {decimals : ℤ} (h : 0 ≤ decimals)
    (hn : net.placeNames.Nodup) : (net.map Number.whole).IsExact decimals := by
  refine ⟨by simpa using hn, fun p hp => ?_, fun a ha => ?_⟩
  · obtain ⟨q, -, rfl⟩ := List.mem_map.mp hp
    exact intCast_mem_multiples h _
  · obtain ⟨b, -, rfl⟩ := List.mem_map.mp ha
    exact intCast_mem_multiples h _

/-- The net of an account to which one transaction adds 1 and from which another takes 2. -/
def tradeNet : Net Number where
  places := [⟨"a", (Number.int 3).toFloat, some "Asset"⟩]
  transitions := [⟨"t", some "Transaction"⟩, ⟨"u", some "Transaction"⟩]
  arcs := [⟨.output, "a", "t", (Number.int 1).toFloat⟩, ⟨.input, "a", "u", (Number.int 2).toFloat⟩]

/-- The same net, with all parts in the opposite order. -/
def tradeNet' : Net Number where
  places := tradeNet.places
  transitions := tradeNet.transitions.reverse
  arcs := tradeNet.arcs.reverse

theorem books_in_any_order_tradeNet :
    let text :=
      "# t [Transaction]\n<debit> a;\n# u [Transaction]\n<credit> 2 a;\n# a [Asset]\nbalance: 3;"
    let text' :=
      "# u [Transaction]\n<credit> 2 a;\n# a [Asset]\nbalance: 3;\n# t [Transaction]\n<debit> a;"
    let net := tradeNet.map Number.whole
    let net' := tradeNet'.map Number.whole
    (net.IsExact 2 ∧ net.transitionNames.Nodup ∧ net'.IsExact 2 ∧
      (∀ t ∈ ["u", "t", "u"], t ∈ net.transactions) ∧
      net.transactions.Perm net'.transactions ∧ Rearranged text text' ∧
      Number.whole (.float 0) = 0 ∧
      ((Graph.ofOperations (operationsOf text)).toNet true (.int 1)).1 = .ok tradeNet) ∧
    net.balancesAfter 2 ["u", "t", "u"] = net.places.map (fun p =>
      (p.name, Quantity.roundTo 2 p.tokens + ∑ t ∈ net.transactions.toFinset,
        (1 + (["u", "t", "u"].count t : ℚ)) * net.effect t p.name)) ∧
    net.balancesAfter 2 ["t", "u", "u"] = net.balancesAfter 2 ["u", "t", "u"] ∧
    (net.SameBalances 2 net' ↔
      ∀ place, net.openingBalances.get place = net'.openingBalances.get place ∧
        ∀ t ∈ net.transactions, net.effect t place = net'.effect t place) ∧
    ∃ numbers', ((Graph.ofOperations (operationsOf text')).toNet true (.int 1)).1 = .ok numbers' ∧
      (numbers'.map Number.whole).IsExact 2 ∧ net.SameBalances 2 (numbers'.map Number.whole) := by
  intro text text' net net'
  have hexact : net.IsExact 2 := isExact_whole (by decide) (by decide)
  have hexact' : net'.IsExact 2 := isExact_whole (by decide) (by decide)
  have hn : net.transitionNames.Nodup := by decide
  have hts : ∀ t ∈ ["u", "t", "u"], t ∈ net.transactions := by decide
  have htransactions : net.transactions.Perm net'.transactions := by decide
  have hrearranged : Rearranged text text' := by decide +kernel
  have hzero : Number.whole (.float 0) = 0 := by decide +kernel
  have hnet : ((Graph.ofOperations (operationsOf text)).toNet true (.int 1)).1 = .ok tradeNet := by
    decide +kernel
  obtain ⟨hruns, hnets, htexts⟩ := books_in_any_order hexact hn
  obtain ⟨hclosed, hperm⟩ := hruns _ hts
  exact ⟨⟨hexact, hn, hexact', hts, htransactions, hrearranged, hzero, hnet⟩, hclosed,
    hperm _ (by decide), hnets net' hexact' htransactions,
    htexts text text' Number.whole (.int 1) tradeNet hrearranged hzero hnet rfl⟩

/-- A morph of one transaction takes the identifier that a relation of another would have, and
only the one that comes first makes an arc: two transactions of one credit each, and which
account is credited depends on their order in the text. -/
theorem not_sameBalances_of_morph :
    let text :=
      "# t [Transaction]\n<credit> x credit y;\n# t credit x [Transaction]\n## m\n<credit> y;"
    let text' :=
      "# t credit x [Transaction]\n## m\n<credit> y;\n# t [Transaction]\n<credit> x credit y;"
    passages text' = (passages text).reverse ∧
      (∀ p ∈ passages text, p.isTransaction = true) ∧
      ∃ numbers numbers',
        ((Graph.ofOperations (operationsOf text)).toNet true (.int 1)).1 = .ok numbers ∧
        ((Graph.ofOperations (operationsOf text')).toNet true (.int 1)).1 = .ok numbers' ∧
        (numbers.map Number.whole).IsExact 2 ∧ (numbers'.map Number.whole).IsExact 2 ∧
        numbers.transactions.Perm numbers'.transactions ∧
        (numbers.map Number.whole).balancesAfter 2 [] = [("x_credit_y", -1), ("y", 0)] ∧
        (numbers'.map Number.whole).balancesAfter 2 [] = [("y", -1), ("x_credit_y", 0)] := by
  intro text text'
  let numbers : Net Number :=
    { places := [⟨"x_credit_y", .float 0, some "Account"⟩, ⟨"y", .float 0, some "Account"⟩]
      transitions := [⟨"t", some "Transaction"⟩, ⟨"t_credit_x", some "Transaction"⟩]
      arcs := [⟨.input, "x_credit_y", "t", (Number.int 1).toFloat⟩] }
  let numbers' : Net Number :=
    { places := [⟨"y", .float 0, some "Account"⟩, ⟨"x_credit_y", .float 0, some "Account"⟩]
      transitions := [⟨"t_credit_x", some "Transaction"⟩, ⟨"t", some "Transaction"⟩]
      arcs := [⟨.input, "y", "t_credit_x", (Number.int 1).toFloat⟩] }
  have htexts : passages text' = (passages text).reverse ∧
      (∀ p ∈ passages text, p.isTransaction = true) ∧
      ((Graph.ofOperations (operationsOf text)).toNet true (.int 1)).1 = .ok numbers ∧
      ((Graph.ofOperations (operationsOf text')).toNet true (.int 1)).1 = .ok numbers' := by
    decide +kernel
  obtain ⟨hreverse, htransactions, hnet, hnet'⟩ := htexts
  refine ⟨hreverse, htransactions, numbers, numbers', hnet, hnet',
    isExact_whole (by decide) (by decide), isExact_whole (by decide) (by decide), ?_, ?_, ?_⟩
  all_goals decide +kernel

end NoteGraph
