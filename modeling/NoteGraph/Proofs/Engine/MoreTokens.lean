import NoteGraph.Proofs.Engine.InTurn
import NoteGraph.Proofs.Engine.StateEquation

/-!
# More tokens never disable

Transitions that fire in turn from a marking of whole numbers fire in turn from every marking
that holds at least as much, however large the counts are. What the second marking holds more in
a place it still holds more at the end, if the counts of that place stay below `2 ^ 53`: from
there on a token can be lost to rounding.
-/

namespace NoteGraph

open Number.Binary64

/-! ### Summed weights -/

namespace Number

/-- A whole number above zero, or what is out of reach. -/
def IsSum (x : Binary64) : Prop := x = .infinite false ∨ ∃ k : ℤ, 0 < k ∧ x.toInt? = some k

theorem isSum_of_zero_lt {x : Binary64} (hpos : Number.lt 0 (.float x) = true)
    (hwhole : x.isFinite = true → x.toInt?.isSome = true) : IsSum x := by
  cases hfinite : x.isFinite with
  | false => exact .inl (eq_infinite_of_zero_lt hpos hfinite)
  | true =>
    obtain ⟨k, hk⟩ := Option.isSome_iff_exists.mp (hwhole hfinite)
    refine .inr ⟨k, ?_, hk⟩
    obtain ⟨n, l, hl, rfl, rfl⟩ := toInt?_eq_some hk
    rw [zero_lt_iff, signedUnits_mul] at hpos
    exact (mul_pos_iff_of_pos_right (Int.natCast_pos.mpr unitsPerOne_pos)).mp hpos

theorem IsSum.zero_lt {x : Binary64} (h : IsSum x) : Number.lt 0 (.float x) = true := by
  rcases h with rfl | ⟨k, hpos, hk⟩
  · rfl
  · obtain ⟨n, l, hl, rfl, rfl⟩ := toInt?_eq_some hk
    rw [zero_lt_iff, signedUnits_mul]
    exact (mul_pos_iff_of_pos_right (Int.natCast_pos.mpr unitsPerOne_pos)).mpr hpos

/-- A sum of whole numbers that is in reach is a whole number. -/
theorem isSome_toInt?_add {x y : Binary64} {a b : ℤ} (hx : x.toInt? = some a)
    (hy : y.toInt? = some b) (hfinite : (x + y).isFinite = true) :
    (x + y).toInt?.isSome = true := by
  obtain ⟨n, k, hk, rfl, rfl⟩ := toInt?_eq_some hx
  obtain ⟨m, l, hl, rfl, rfl⟩ := toInt?_eq_some hy
  rw [finite_add_finite, signedUnits_mul, signedUnits_mul, ← Int.add_mul,
    ← ofInt_eq_ofUnits] at hfinite ⊢
  split_ifs at hfinite ⊢ with hzero hsign
  · rw [toInt?_finite]
    rfl
  · exact isSome_toInt?_ofInt hfinite
  · exact isSome_toInt?_ofInt hfinite

theorem IsSum.add {x y : Binary64} (hx : IsSum x) (hy : IsSum y) : IsSum (x + y) := by
  refine isSum_of_zero_lt (zero_lt_add hx.zero_lt hy.zero_lt) fun hfinite => ?_
  rcases hx with rfl | ⟨a, -, ha⟩
  · cases y with
    | infinite n => cases n <;> cases hfinite
    | finite | undefined => cases hfinite
  · rcases hy with rfl | ⟨b, -, hb⟩
    · obtain ⟨n, l, hl, rfl, -⟩ := toInt?_eq_some ha
      cases hfinite
    · exact isSome_toInt?_add ha hb hfinite

theorem isSum_foldl_add {rest : List Number} : ∀ {first : Number},
    (∀ w ∈ first :: rest, IsSum w.toBinary64) →
      IsSum (rest.foldl (· + ·) first).toBinary64 := by
  induction rest with
  | nil => exact fun h => h _ List.mem_cons_self
  | cons second more ih =>
    intro first h
    obtain ⟨hfirst, hrest⟩ := List.forall_mem_cons.mp h
    obtain ⟨hsecond, hmore⟩ := List.forall_mem_cons.mp hrest
    exact ih (List.forall_mem_cons.mpr ⟨hfirst.add hsecond, hmore⟩)

theorem IsWhole.isSum {w : Number} (h : w.IsWhole)
    (hpos : Number.lt 0 (.float w.toBinary64) = true) : IsSum w.toBinary64 := by
  refine isSum_of_zero_lt hpos fun hfinite => ?_
  cases w with
  | int n => exact isSome_toInt?_ofInt hfinite
  | float x => exact h

end Number

/-- Summed weights of whole numbers are whole, unless they are out of reach. -/
theorem Graph.IsNetOf.isSum_weight [EntryOrder] {g : Graph} {accounting : Bool}
    {tokens : Number} {net : Net Number} (h : g.IsNetOf accounting tokens net)
    (hwhole : ∀ a ∈ net.arcs, a.weight.IsWhole) {direction : Direction} {t : String}
    {arc : String × Number} (harc : arc ∈ net.weights direction t) :
    Number.IsSum arc.2.toBinary64 := by
  obtain ⟨-, first, rest, hw, hsum⟩ := Net.mem_weights.mp harc
  rw [hsum]
  refine Number.isSum_foldl_add fun w hmem => ?_
  obtain ⟨a, ha, rfl⟩ := Net.mem_addends (hw ▸ hmem)
  exact (hwhole a ha).isSum (h.zero_lt_arc ha)

namespace Engine

/-- What covers a weight covers every smaller one. -/
theorem covers_of_le {held weight least : Number}
    (hle : least.toBinary64.le weight.toBinary64 = true) (hcovers : covers held weight = true) :
    covers held least = true := by
  rw [Number.covers_eq] at hcovers ⊢
  obtain ⟨hleast, hweight, -⟩ := le_iff.mp hle
  exact le_trans (add_le_add_right hle (add_finite_ne_undefined hleast _ _)
    (add_finite_ne_undefined hweight _ _)) hcovers

/-- What covers a summed weight is at least as much, as long as it is below `2 ^ 53`. -/
theorem exists_le_of_covers {held weight : Number} {a : ℤ}
    (hheld : held.toBinary64.toInt? = some a) (ha : a < 2 ^ 53)
    (hweight : Number.IsSum weight.toBinary64) (hcovers : covers held weight = true) :
    ∃ k, 0 < k ∧ weight.toBinary64.toInt? = some k ∧ k ≤ a := by
  rcases hweight with hweight | ⟨k, hpos, hk⟩
  · rw [Number.covers_eq, hweight] at hcovers
    obtain ⟨n, l, hl, hfinite, -⟩ := toInt?_eq_some hheld
    rw [hfinite] at hcovers
    cases hcovers
  · -- it also covers what is exact of the weight
    have hleast : (Number.int (min k (2 ^ 53))).toBinary64.toInt? = some (min k (2 ^ 53)) :=
      toInt?_ofInt (by omega)
    have hcovers' := covers_of_le (le_of_toInt? hleast hk (min_le_left k _)) hcovers
    have hnonneg : 0 ≤ a := by
      by_contra hneg
      have hzero : (Number.int 0).toBinary64.toInt? = some 0 := toInt?_ofInt (by decide)
      have hcoversZero := covers_of_atMost
        (.inr (le_of_toInt? hheld hzero (by omega))) hcovers'
      rw [covers_iff_of_toInt? hzero hleast le_rfl (by omega) (by omega)] at hcoversZero
      omega
    rw [covers_iff_of_toInt? hheld hleast hnonneg (by omega) (by omega)] at hcovers'
    exact ⟨k, hpos, hk, by omega⟩

/-- A sum that is counted as less than `2 ^ 53` is less. -/
theorem add_lt_of_settle_lt {e : Engine Number} (hmode : e.accounting = false)
    {held weight : Number} {a k : ℤ} (hheld : held.toBinary64.toInt? = some a)
    (hweight : weight.toBinary64.toInt? = some k)
    (h : Number.lt (e.settle (held + weight)) (.int (2 ^ 53)) = true) : a + k < 2 ^ 53 := by
  by_contra hge
  have hbound : (Number.int (2 ^ 53)).toBinary64.toInt? = some (2 ^ 53) := toInt?_ofInt (by decide)
  have hsum : (Number.int (2 ^ 53)).toBinary64.AtMost (held + weight).toBinary64 := by
    refine .inr (le_iff.mpr
      ⟨ne_undefined_of_toInt? hbound, add_ne_undefined_of_toInt? hheld hweight, ?_⟩)
    rw [Number.add_eq, Number.toBinary64, Number.toBinary64, extent_add_of_toInt? hheld hweight]
    exact extent_ofInt_mono (by omega)
  have hsettled := atMost_settle hmode hsum
  rw [settle_of_toInt? hmode hbound] at hsettled
  exact Number.not_le_of_lt (by decide) le_rfl h
    (hsettled.resolve_left (ne_undefined_of_toInt? hbound))

/-! ### Two counts of a place -/

/-- Two whole numbers of tokens that floating-point numbers can tell from their neighbours, and
how much the second is more. -/
structure IsAhead (lead : ℤ) (held held' : Number) : Prop where
  whole : held.IsWhole
  whole' : held'.IsWhole
  low : -2 ^ 53 ≤ held.value
  high : held'.value < 2 ^ 53
  lead_nonneg : 0 ≤ lead
  value_eq : held'.value = held.value + lead

namespace IsAhead

variable {e : Engine Number} {lead : ℤ} {held held' : Number}

theorem toInt? (h : IsAhead lead held held') :
    held.toBinary64.toInt? = some held.value ∧ held'.toBinary64.toInt? = some held'.value := by
  obtain ⟨hw, hw', hlow, hhigh, hlead, heq⟩ := h
  exact ⟨Number.toInt?_of_isWhole hw (by omega), Number.toInt?_of_isWhole hw' (by omega)⟩

theorem ofInt {a : ℤ} (hlow : -2 ^ 53 ≤ a) (hhigh : a + lead < 2 ^ 53) (hlead : 0 ≤ lead) :
    IsAhead lead (.int a) (.int (a + lead)) :=
  ⟨trivial, trivial, hlow, hhigh, hlead, rfl⟩

/-- Both lose what is taken. -/
theorem drawn (h : IsAhead lead held held') (hmode : e.accounting = false)
    {weight : Option Number}
    (hweight : ∀ w ∈ weight, Number.IsSum w.toBinary64 ∧ covers held w = true) :
    IsAhead lead (e.drawn held weight) (e.drawn held' weight) := by
  cases weight with
  | none => exact h
  | some w =>
    obtain ⟨hx, hy⟩ := h.toInt?
    obtain ⟨-, -, hlow, hhigh, hlead, heq⟩ := h
    obtain ⟨hsum, hcovers⟩ := hweight w rfl
    obtain ⟨k, hpos, hk, hle⟩ := exists_le_of_covers hx (by omega) hsum hcovers
    have hx' : (held - w).toBinary64.toInt? = some (held.value - k) :=
      toInt?_sub hx hk (by omega)
    have hy' : (held' - w).toBinary64.toInt? = some (held.value - k + lead) := by
      rw [Number.sub_eq, Number.toBinary64, toInt?_sub hy hk (by omega)]
      congr 1
      omega
    rw [Engine.drawn, Engine.drawn, settle_of_toInt? hmode hx', settle_of_toInt? hmode hy']
    exact ofInt (by omega) (by omega) hlead

/-- Both gain what is put, if the count stays below `2 ^ 53`. -/
theorem filled (h : IsAhead lead held held') (hmode : e.accounting = false)
    {weight : Option Number} (hweight : ∀ w ∈ weight, Number.IsSum w.toBinary64)
    (hbound : Number.lt (e.filled held' weight) (.int (2 ^ 53)) = true) :
    IsAhead lead (e.filled held weight) (e.filled held' weight) := by
  cases weight with
  | none => exact h
  | some w =>
    obtain ⟨hx, hy⟩ := h.toInt?
    obtain ⟨-, -, hlow, hhigh, hlead, heq⟩ := h
    rcases hweight w rfl with hw | ⟨k, hpos, hk⟩
    · -- nothing out of reach can be put
      have hsum : held' + w = .float (.infinite false) := by
        obtain ⟨n, l, hl, hfinite, -⟩ := toInt?_eq_some hy
        rw [Number.add_eq, hw, hfinite]
        rfl
      rw [Engine.filled, hsum, settle_infinite hmode] at hbound
      cases hbound
    · have hreach := add_lt_of_settle_lt hmode hy hk hbound
      have hx' : (held + w).toBinary64.toInt? = some (held.value + k) :=
        toInt?_add hx hk (by omega)
      have hy' : (held' + w).toBinary64.toInt? = some (held.value + k + lead) := by
        rw [Number.add_eq, Number.toBinary64, toInt?_add hy hk (by omega)]
        congr 1
        omega
      rw [Engine.filled, Engine.filled, settle_of_toInt? hmode hx', settle_of_toInt? hmode hy']
      exact ofInt (by omega) (by omega) hlead

end IsAhead

/-! ### Two runs -/

section Runs

variable [EntryOrder] {e : Engine Number} (h : e.accounting = false) (hn : e.net.placeNames.Nodup)
  (hsums : ∀ direction t, ∀ arc ∈ e.net.weights direction t, Number.IsSum arc.2.toBinary64)
  {lead : ℤ} {place : String}

include h hn hsums

theorem isAhead_successor {m m' : Marking Number} {t : String}
    (hahead : IsAhead lead (m.get place) (m'.get place)) (ht : e.isEnabledIn m t = true)
    (hbound : Number.lt ((e.successor m' t).get place) (.int (2 ^ 53)) = true) :
    IsAhead lead ((e.successor m t).get place) ((e.successor m' t).get place) := by
  rw [get_successor_eq h hn] at hbound
  rw [get_successor_eq h hn, get_successor_eq h hn]
  refine (hahead.drawn h fun w hw => ?_).filled h (fun w hw => ?_) hbound
  · have hmem := Keyed.mem_of_lookup_eq_some hw
    exact ⟨hsums .input t _ hmem, ((isEnabledIn_iff h).mp ht).2.2 _ hmem⟩
  · exact hsums .output t _ (Keyed.mem_of_lookup_eq_some hw)

/-- The second of two runs stays ahead by as much as it was. -/
theorem isAhead_foldl_successor (ts : List String) : ∀ {m m' n : Marking Number},
    IsAhead lead (m.get place) (m'.get place) → e.fireInTurn m ts = .ok (some n) →
      (∀ c ∈ ts.scanl e.successor m', Number.lt (c.get place) (.int (2 ^ 53)) = true) →
        IsAhead lead (n.get place) ((ts.foldl e.successor m').get place) := by
  induction ts with
  | nil =>
    intro m m' n hahead hrun _
    rwa [eq_foldl_of_fireInTurn h [] hrun]
  | cons t rest ih =>
    intro m m' n hahead hrun hbound
    obtain ⟨ht, -, hrest⟩ := (fireInTurn_cons_iff h).mp hrun
    rw [List.scanl_cons] at hbound
    obtain ⟨-, hnext⟩ := List.forall_mem_cons.mp hbound
    have hfirst : e.successor m' t ∈ rest.scanl e.successor (e.successor m' t) := by
      cases rest <;> simp
    exact ih (isAhead_successor h hn hsums hahead ht (hnext _ hfirst)) hrest hnext

end Runs

end Engine

/-- **More tokens never disable**: in a token net of whole numbers, transitions that fire in turn
from a marking of whole numbers also fire in turn from one that holds at least as much
everywhere, if no count that they touch is too large to be computed with. Places that they do
not touch keep what they hold; and a place whose counts stay below `2 ^ 53` holds as much more
in the end as it did before. -/
theorem Simulation.more_tokens [EntryOrder] {g : Graph} {tokens : Option Number}
    {mode : Option Bool} {settings : SimulationSettings} {s : Simulation}
    (hs : (start g tokens mode settings).1 = .ok s) (htoken : s.engine.accounting = false)
    (requests : List Request) (hweights : ∀ a ∈ (s.run requests).engine.net.arcs, a.weight.IsWhole)
    {m m' n : Marking Number} {ts : List String}
    (hmarkings : ∀ place ∈ (s.run requests).engine.net.placeNames, (m.get place).IsWhole ∧
      (m'.get place).IsWhole ∧ (m.get place).value ≤ (m'.get place).value)
    (hmeasurable : m'.isMeasurable ((s.run requests).engine.touched ts) = true)
    (hrun : (s.run requests).engine.fireInTurn m ts = .ok (some n)) :
    ∃ n', (s.run requests).engine.fireInTurn m' ts = .ok (some n') ∧
      (∀ place ∉ (s.run requests).engine.touched ts,
        n.get place = m.get place ∧ n'.get place = m'.get place) ∧
      ∀ place ∈ (s.run requests).engine.net.placeNames, -2 ^ 53 ≤ (m.get place).value →
        (∀ c ∈ ts.scanl (s.run requests).engine.successor m',
          Number.lt (c.get place) (.int (2 ^ 53)) = true) →
        (n.get place).IsWhole ∧ (n'.get place).IsWhole ∧
          (n'.get place).value - (n.get place).value =
            (m'.get place).value - (m.get place).value := by
  obtain ⟨⟨hmode, _, -, hnet⟩, -⟩ := covers_run hs htoken requests
  generalize (s.run requests).engine = e at *
  have hn := hnet.nodup
  have hsums : ∀ direction t, ∀ arc ∈ e.net.weights direction t,
      Number.IsSum arc.2.toBinary64 := fun _ _ _ harc => hnet.isSum_weight hweights harc
  have hbelow : e.IsBelow m m' := fun place hplace =>
    .inr (Number.le_toBinary64_of_value_le (hmarkings place hplace).1
      (hmarkings place hplace).2.1 (hmarkings place hplace).2.2)
  refine ⟨ts.foldl e.successor m', ?_, fun place hplace => ⟨?_, ?_⟩,
    fun place hplace hlow hbound => ?_⟩
  · refine Engine.fireInTurn_of_isBelow hmode hn (fun direction t arc harc => ?_) ts hbelow
      hmeasurable hrun
    exact Number.nonNeg_of_zero_lt (hsums direction t arc harc).zero_lt
  · rw [Engine.eq_foldl_of_fireInTurn hmode ts hrun]
    exact Engine.get_foldl_successor hmode hn ts hplace m
  · exact Engine.get_foldl_successor hmode hn ts hplace m'
  · obtain ⟨hm, hm', hle⟩ := hmarkings place hplace
    have hfirst : m' ∈ ts.scanl e.successor m' := by
      cases ts <;> simp
    have hahead : Engine.IsAhead ((m'.get place).value - (m.get place).value) (m.get place)
        (m'.get place) :=
      ⟨hm, hm', hlow, Number.value_lt_of_lt hm' (hbound _ hfirst), by omega, by omega⟩
    have hend := Engine.isAhead_foldl_successor hmode hn hsums ts hahead hrun hbound
    exact ⟨hend.whole, hend.whole', by rw [hend.value_eq]; omega⟩

/-- Two firings that take two tokens each and put one back, from three tokens and from seven. -/
theorem more_tokens_halvingGraph :
    let m : Marking Number := [("p", .int 3), ("q", .int 0)]
    let m' : Marking Number := [("p", .int 7), ("q", .int 2)]
    let n : Marking Number := [("p", .int 1), ("q", .int 2)]
    ∃ s, (Simulation.start halvingGraph none none {}).1 = .ok s ∧
      let e := (s.run [.fire "t"]).engine
      (s.engine.accounting = false ∧ (∀ a ∈ e.net.arcs, a.weight.IsWhole) ∧
        (∀ place ∈ e.net.placeNames, (m.get place).IsWhole ∧ (m'.get place).IsWhole ∧
          (m.get place).value ≤ (m'.get place).value) ∧
        m'.isMeasurable (e.touched ["t", "t"]) = true ∧
        e.fireInTurn m ["t", "t"] = .ok (some n) ∧
        ∀ c ∈ ["t", "t"].scanl e.successor m', ∀ place ∈ e.net.placeNames,
          Number.lt (c.get place) (.int (2 ^ 53)) = true) ∧
      ∃ n', e.fireInTurn m' ["t", "t"] = .ok (some n') ∧
        (∀ place ∉ e.touched ["t", "t"],
          n.get place = m.get place ∧ n'.get place = m'.get place) ∧
        ∀ place ∈ e.net.placeNames, -2 ^ 53 ≤ (m.get place).value →
          (∀ c ∈ ["t", "t"].scanl e.successor m',
            Number.lt (c.get place) (.int (2 ^ 53)) = true) →
          (n.get place).IsWhole ∧ (n'.get place).IsWhole ∧
            (n'.get place).value - (n.get place).value =
              (m'.get place).value - (m.get place).value := by
  intro m m' n
  obtain ⟨s, hs, h⟩ := exists_ok_of_any (x := (Simulation.start halvingGraph none none {}).1)
    (p := fun s => s.engine.accounting = false ∧
      (∀ a ∈ (s.run [.fire "t"]).engine.net.arcs, a.weight.IsWhole) ∧
      (∀ place ∈ (s.run [.fire "t"]).engine.net.placeNames, (m.get place).IsWhole ∧
        (m'.get place).IsWhole ∧ (m.get place).value ≤ (m'.get place).value) ∧
      m'.isMeasurable ((s.run [.fire "t"]).engine.touched ["t", "t"]) = true ∧
      (s.run [.fire "t"]).engine.fireInTurn m ["t", "t"] = .ok (some n) ∧
      ∀ c ∈ ["t", "t"].scanl (s.run [.fire "t"]).engine.successor m',
        ∀ place ∈ (s.run [.fire "t"]).engine.net.placeNames,
          Number.lt (c.get place) (.int (2 ^ 53)) = true) (by decide +kernel)
  exact ⟨s, hs, h, Simulation.more_tokens hs h.1 [.fire "t"] h.2.1 h.2.2.1 h.2.2.2.1 h.2.2.2.2.1⟩

/-- One token more than `2 ^ 53` is lost to rounding, and what is too large to be computed with
cannot even be tested. -/
theorem tokens_lost_in_turn :
    let g := Graph.ofOperations
      (operationsOf "# t [Transition]\n<has prior_state> q;\n<has post_state> p;")
    let m : Marking Number := [("p", .int 0), ("q", .int 1)]
    let m' : Marking Number := [("p", .int (2 ^ 53)), ("q", .int 1)]
    let m'' : Marking Number := [("p", .int 0), ("q", .int (10 ^ 400))]
    ∃ s, (Simulation.start g none none {}).1 = .ok s ∧ s.engine.accounting = false ∧
      (∀ a ∈ s.engine.net.arcs, a.weight.IsWhole) ∧ s.engine.net.placeNames = ["q", "p"] ∧
      s.engine.fireInTurn m ["t"] = .ok (some [("p", .int 1), ("q", .int 0)]) ∧
      s.engine.fireInTurn m' ["t"] = .ok (some [("p", .int (2 ^ 53)), ("q", .int 0)]) ∧
      s.engine.fireInTurn m'' ["t"] = .error (.outOfRange .tooLarge) := by
  intro g m m' m''
  exact exists_ok_of_any (by decide +kernel)

end NoteGraph
