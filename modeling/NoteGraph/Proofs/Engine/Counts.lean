import NoteGraph.Graph.Assembly
import NoteGraph.Net.RowSort
import NoteGraph.Operation.OfText
import NoteGraph.Proofs.Engine.Sharp

/-!
# When counts stay above zero

The counts of a token net stay above zero exactly when the weights that it takes are
sharp and none of them stands beside an infinite sum: for every other weight there is a
net with one place that ends with less than nothing, or with no number at all.
-/

namespace NoteGraph

/-! ### A place that is left with less than nothing -/

/-- A graph with a place and two transitions, and some edges between them. -/
def poolGraph (edges : List Edge) : Graph :=
  let node (id role : String) : Node :=
    { id, baseName := id, name := id, displayName := id, role
      basic := ⟨id ++ "_morph_basic", id, "basic", [], []⟩ }
  { nodes := [node "pool" "class", node "drain" "Transition", node "spill" "Transition"]
    edges }

/-- An edge that makes an arc between one of the two transitions and the place. -/
structure IsPoolEdge (e : Edge) : Prop where
  relation : (Direction.ofRelation? e.name).isSome = true
  source : e.sourceId = "drain" ∨ e.sourceId = "spill"
  target : e.targetId = "pool"
  pos : Number.lt 0 e.weight = true
  finite : e.weight.toBinary64.isFinite = true

/-- The net of such a graph. -/
def poolNet (edges : List Edge) (tokens : Number.Binary64) : Net Number :=
  { places := [⟨"pool", .float tokens, some "class"⟩]
    transitions := [⟨"drain", some "Transition"⟩, ⟨"spill", some "Transition"⟩]
    arcs := edges.map Graph.arcOf }

section Pool

variable {edges : List Edge} (hedges : ∀ e ∈ edges, IsPoolEdge e)

include hedges

theorem isFinite_arcs_poolNet (tokens : Number.Binary64) :
    ∀ a ∈ (poolNet edges tokens).arcs, a.weight.toBinary64.isFinite = true := by
  intro a ha
  obtain ⟨e, he, rfl⟩ := List.mem_map.mp ha
  exact (hedges e he).finite

theorem arcEdges_poolGraph : (poolGraph edges).arcEdges = edges := by
  have hstate : (poolGraph edges).stateEdges = edges := by
    refine List.filter_eq_self.mpr fun e he => ?_
    have hsource : (poolGraph edges).isTransition e.sourceId = true := by
      rcases (hedges e he).source with h | h
      · rw [h]
        rfl
      · rw [h]
        rfl
    rw [(hedges e he).relation, hsource, Bool.and_self]
  rw [Graph.arcEdges, hstate]
  refine List.filter_eq_self.mpr fun e he => ?_
  rw [Graph.makesArc, (hedges e he).target, (hedges e he).pos]
  rfl

variable (hprior : ∃ e ∈ edges, e.name = priorState)

include hprior

theorem placeIds_poolGraph : (poolGraph edges).placeIds false = ["pool"] := by
  obtain ⟨e, he, -⟩ := hprior
  have htargets : ∀ id, (edges.map (·.targetId)).contains id = (id == "pool") := by
    intro id
    rw [Bool.eq_iff_iff, List.contains_iff_mem, List.mem_map, beq_iff_eq]
    constructor
    · rintro ⟨e', he', rfl⟩
      exact (hedges e' he').target
    · rintro rfl
      exact ⟨e, he, (hedges e he).target⟩
  have hrest : (edges.map (·.targetId)).filter (fun id => !(["pool"].contains id)) = [] := by
    refine List.filter_eq_nil_iff.mpr fun id hid => ?_
    have heq : (id == "pool") = true := by
      rw [← htargets]
      exact List.contains_iff_mem.mpr hid
    simp [beq_iff_eq.mp heq]
  have hnodes : ((poolGraph edges).nodes.filter fun n =>
      (edges.map (·.targetId)).contains n.id ||
        (false && (poolGraph edges).isAccountPlace n)).map (·.id) = ["pool"] := by
    simp only [htargets]
    rfl
  rw [Graph.placeIds, arcEdges_poolGraph hedges]
  simp only [hnodes, hrest]
  simp [sortNames]

variable {tokens : Number.Binary64} (htokens : tokens.isFinite = true)

include htokens

theorem toNet_poolGraph :
    ((poolGraph edges).toNet false (.float tokens)).1 = .ok (poolNet edges tokens) := by
  have harcs := arcEdges_poolGraph hedges
  have hseed : (poolGraph edges).seed false (.float tokens) "pool" = (.float tokens, []) := by
    obtain ⟨e, he, hname⟩ := hprior
    have hany : edges.any (fun e => e.name == priorState && e.targetId == "pool") = true := by
      refine List.any_eq_true.mpr ⟨e, he, ?_⟩
      rw [hname, (hedges e he).target]
      rfl
    rw [Graph.seed, harcs, if_neg Bool.false_ne_true, if_pos hany]
  have hadd : ((poolGraph edges).addPlaces false (.float tokens) {} ["pool"]).1 =
      .ok { places := [⟨"pool", .float tokens, some "class"⟩] } := by
    rw [Graph.addPlaces, hseed]
    simp [Net.addPlace, Net.kindOf?, Net.hasPlace, Net.hasTransition, Number.isTooLarge,
      Number.isFinite, htokens]
    rfl
  have hlarge : edges.any (·.weight.isTooLarge) = false := by
    refine List.any_eq_false.mpr fun e he => ?_
    rw [Number.isTooLarge_eq_false (hedges e he).finite]
    exact Bool.false_ne_true
  rw [Graph.toNet, harcs, hlarge, if_neg Bool.false_ne_true, placeIds_poolGraph hedges hprior]
  simp only [hadd]
  rfl

theorem start_poolGraph [EntryOrder] (hnonNeg : Number.lt (.float tokens) 0 = false) :
    (Simulation.start (poolGraph edges) (some (.float tokens)) none {}).1 =
      .ok ⟨poolGraph edges, {}, .float tokens, .start (poolNet edges tokens) false 2⟩ := by
  have hmode : (poolGraph edges).hasTransactions = false := rfl
  rw [Simulation.start]
  simp only [Option.getD_none, Option.getD_some, hnonNeg, hmode, Bool.false_eq_true, if_false,
    toNet_poolGraph hedges hprior htokens]
  rfl

end Pool

/-- Parallel arcs of equal weights have the same sum in any order. -/
theorem weights_poolNet [EntryOrder] {edges : List Edge} {tokens : Number.Binary64}
    {direction : Direction} {t : String} {n : ℕ} {w : Number}
    (h : (poolNet edges tokens).arcWeights direction "pool" t = List.replicate n w) :
    (poolNet edges tokens).weights direction t =
      (Net.sum? (List.replicate n w)).toList.map fun weight => ("pool", weight) := by
  have haddends : (poolNet edges tokens).addends direction "pool" t = List.replicate n w :=
    List.perm_replicate.mp (h ▸ Net.addends_perm _ direction "pool" t)
  have hnames : (poolNet edges tokens).placeNames = ["pool"] := rfl
  rw [Net.weights_eq_filterMap, hnames, List.filterMap_cons, haddends]
  cases Net.sum? (List.replicate n w) <;> rfl

/-- Firing in a net with one place. -/
theorem Engine.fire_pool [EntryOrder] {e : Engine Number} (hmode : e.accounting = false)
    {t : String} {held weight : Number} (hmarking : e.marking = [("pool", held)])
    (ht : e.net.hasTransition t = true) (hin : e.net.inputWeights t = [("pool", weight)])
    (hcovers : covers held weight = true) :
    (e.fire t).marking = Marking.sweep (fun held weight => e.settle (held + weight))
      [("pool", e.settle (held - weight))] (e.net.outputWeights t) := by
  have henabled : e.isEnabled t = true := by
    refine (isEnabledIn_iff hmode).mpr ⟨ht, ?_, ?_⟩
    · rw [hin]
      exact List.cons_ne_nil _ _
    · rw [hin, hmarking]
      intro arc harc
      obtain rfl := List.mem_singleton.mp harc
      exact hcovers
  rw [fire_of_isEnabled henabled]
  change e.successor e.marking t = _
  rw [successor_eq hmode, hmarking, hin]
  rfl

/-- The edge through which the first transition takes from the pool. -/
def drainEdge (weight : Number.Binary64) : Edge :=
  ⟨"1", "drain", "pool", priorState, .float weight, []⟩

theorem isPoolEdge_drainEdge {weight : Number.Binary64} (hfinite : weight.isFinite = true)
    (hweight : Number.lt 0 (.float weight) = true) : IsPoolEdge (drainEdge weight) :=
  ⟨rfl, Or.inl rfl, rfl, hweight, hfinite⟩

section Drain

variable [EntryOrder] {weight tokens : Number.Binary64}

theorem inputWeights_drain : (poolNet [drainEdge weight] tokens).inputWeights "drain" =
    [("pool", .float weight)] := weights_poolNet (n := 1) rfl

theorem eq_of_mem_inputWeights_drain {t : String} {arc : String × Number}
    (h : arc ∈ (poolNet [drainEdge weight] tokens).inputWeights t) : arc.2 = .float weight := by
  by_cases ht : t = "drain"
  · subst ht
    rw [inputWeights_drain] at h
    obtain rfl := List.mem_singleton.mp h
    rfl
  · have hnone : (poolNet [drainEdge weight] tokens).inputWeights t = [] := by
      refine weights_poolNet (n := 0) (w := .float weight) ?_
      simp [Net.arcWeights, poolNet, Graph.arcOf, drainEdge, Ne.symm ht]
    rw [hnone] at h
    cases h

theorem outputWeights_drain : (poolNet [drainEdge weight] tokens).outputWeights "drain" = [] :=
  weights_poolNet (n := 0) (w := .float weight) rfl

end Drain

/-- A weight above zero that is not sharp leaves a place with less than nothing: let the
place start with the least that covers it. -/
theorem exists_run_of_not_sharp [EntryOrder] {weight : Number.Binary64}
    (hfinite : weight.isFinite = true) (hweight : Number.lt 0 (.float weight) = true)
    (hsharp : Engine.isSharp (Number.float weight) = false) :
    ∃ tokens s, (Simulation.start (poolGraph [drainEdge weight]) (some tokens) none {}).1 = .ok s ∧
      s.engine.accounting = false ∧
      (∀ a ∈ s.engine.net.arcs, a.weight.toBinary64.isFinite = true) ∧
      (∀ t, ∀ arc ∈ s.engine.net.inputWeights t, arc.2 = .float weight) ∧
      ¬(s.run [.fire "drain"]).engine.marking.NonNeg := by
  obtain ⟨u, hu, rfl⟩ := Number.exists_units_of_zero_lt hfinite hweight
  obtain ⟨c, hc, hleast, hneg, hlarge⟩ := Number.least_of_not_sharp hu hsharp
  have htokens : Number.lt (.float (.finite false c hc)) 0 = false :=
    (Number.lt_zero_iff rfl).mpr (.finite (Int.natCast_nonneg c))
  have hcovers : Engine.covers (.ofWhole (.finite false c hc))
      (Number.float (.finite false u hu)) = true := by
    rw [Number.covers_eq, Number.toBinary64_ofWhole]
    change (Number.Binary64.finite false u hu - Number.tolerance64).le _ = true
    rw [hleast, Number.Binary64.le_finite]
  have hedges : ∀ e ∈ [drainEdge (.finite false u hu)], IsPoolEdge e :=
    List.forall_mem_singleton.mpr (isPoolEdge_drainEdge hfinite hweight)
  refine ⟨_, _, start_poolGraph hedges ⟨_, List.mem_singleton_self _, rfl⟩ rfl htokens, rfl,
    List.forall_mem_singleton.mpr rfl, fun t arc harc => eq_of_mem_inputWeights_drain harc, ?_⟩
  change ¬((Engine.start (poolNet [drainEdge (.finite false u hu)] (.finite false c hc)) false
    2).fire "drain").marking.NonNeg
  rw [Engine.fire_pool rfl rfl rfl inputWeights_drain hcovers, Engine.start, outputWeights_drain]
  intro h
  have hleft := Number.le_zero_iff.mp (h _ (List.mem_singleton_self _))
  rw [Engine.nonNeg_settle rfl, Number.sub_eq, Number.toBinary64_ofWhole] at hleft
  rcases hleft with hleft | hleft
  · exact hneg hleft
  · exact Bool.noConfusion (hlarge.symm.trans hleft)

/-! ### A pool that is left with no number -/

/-- A weight that is infinite when it is doubled. -/
def hugeWeight : Number := .int (Nat.pow 10 308)

theorem zero_lt_hugeWeight : Number.lt 0 hugeWeight = true := by decide +kernel

theorem isFinite_hugeWeight : hugeWeight.toBinary64.isFinite = true := by decide +kernel

theorem hugeWeight_add_hugeWeight :
    hugeWeight.toBinary64 + hugeWeight.toBinary64 = .infinite false := by decide +kernel

attribute [irreducible] hugeWeight

/-- Edges through which the first transition floods the pool and the second takes all. -/
def floodEdges : List Edge :=
  [⟨"2", "drain", "pool", postState, hugeWeight, []⟩,
    ⟨"3", "drain", "pool", postState, hugeWeight, []⟩,
    ⟨"4", "spill", "pool", priorState, hugeWeight, []⟩,
    ⟨"5", "spill", "pool", priorState, hugeWeight, []⟩]

theorem isPoolEdge_floodEdges : ∀ e ∈ floodEdges, IsPoolEdge e := by
  intro e he
  have hhuge : ∀ {id source name}, (Direction.ofRelation? name).isSome = true →
      source = "drain" ∨ source = "spill" →
      IsPoolEdge ⟨id, source, "pool", name, hugeWeight, []⟩ := fun hrelation hsource =>
    ⟨hrelation, hsource, rfl, zero_lt_hugeWeight, isFinite_hugeWeight⟩
  simp only [floodEdges, List.mem_cons, List.not_mem_nil, or_false] at he
  rcases he with rfl | rfl | rfl | rfl
  · exact hhuge rfl (Or.inl rfl)
  · exact hhuge rfl (Or.inl rfl)
  · exact hhuge rfl (Or.inr rfl)
  · exact hhuge rfl (Or.inr rfl)

section Flood

variable {weight tokens : Number.Binary64}

theorem hugeWeight_twice : hugeWeight.toFloat + hugeWeight.toFloat = .float (.infinite false) := by
  rw [Number.add_eq]
  exact congrArg Number.float hugeWeight_add_hugeWeight

variable [EntryOrder]

theorem inputWeights_flood_drain :
    (poolNet (drainEdge weight :: floodEdges) tokens).inputWeights "drain" =
      [("pool", .float weight)] := weights_poolNet (n := 1) rfl

theorem outputWeights_flood_drain :
    (poolNet (drainEdge weight :: floodEdges) tokens).outputWeights "drain" =
      [("pool", .float (.infinite false))] := by
  rw [← hugeWeight_twice]
  exact weights_poolNet (n := 2) rfl

theorem inputWeights_flood_spill :
    (poolNet (drainEdge weight :: floodEdges) tokens).inputWeights "spill" =
      [("pool", .float (.infinite false))] := by
  rw [← hugeWeight_twice]
  exact weights_poolNet (n := 2) rfl

theorem outputWeights_flood_spill :
    (poolNet (drainEdge weight :: floodEdges) tokens).outputWeights "spill" = [] :=
  weights_poolNet (n := 0) (w := .float weight) rfl

theorem eq_of_mem_inputWeights_flood {t : String} {arc : String × Number}
    (h : arc ∈ (poolNet (drainEdge weight :: floodEdges) tokens).inputWeights t) :
    arc.2 = .float weight ∨ arc.2 = .float (.infinite false) := by
  by_cases hdrain : t = "drain"
  · subst hdrain
    rw [inputWeights_flood_drain] at h
    obtain rfl := List.mem_singleton.mp h
    exact Or.inl rfl
  · by_cases hspill : t = "spill"
    · subst hspill
      rw [inputWeights_flood_spill] at h
      obtain rfl := List.mem_singleton.mp h
      exact Or.inr rfl
    · have hnone : (poolNet (drainEdge weight :: floodEdges) tokens).inputWeights t = [] := by
        refine weights_poolNet (n := 0) (w := .float weight) ?_
        simp [Net.arcWeights, poolNet, Graph.arcOf, drainEdge, floodEdges, Ne.symm hdrain,
          Ne.symm hspill]
      rw [hnone] at h
      cases h

variable {e : Engine Number} {u : ℕ} {hu : Number.Fits u} (hmode : e.accounting = false)
  (hnet : e.net = poolNet (drainEdge (.finite false u hu) :: floodEdges) tokens)

include hmode hnet

/-- The first transition floods the pool. -/
theorem fire_flood_drain (hmarking : e.marking = [("pool", .ofWhole (.finite false u hu))]) :
    (e.fire "drain").marking = [("pool", .float (.infinite false))] := by
  have hcovers : Engine.covers (.ofWhole (.finite false u hu))
      (Number.float (.finite false u hu)) = true := by
    rw [Number.covers_eq, Number.toBinary64_ofWhole]
    exact Number.sub_tolerance_le_self hu
  have hleft : (e.settle (.ofWhole (.finite false u hu) -
      .float (.finite false u hu))).toBinary64.NonNeg := by
    refine (Engine.nonNeg_settle hmode).mpr (Or.inl ?_)
    rw [Number.sub_eq, Number.toBinary64_ofWhole]
    exact Number.Binary64.nonNeg_sub_finite hu hu le_rfl
  rw [Engine.fire_pool hmode hmarking (by rw [hnet]; rfl)
    (by rw [hnet]; exact inputWeights_flood_drain) hcovers, hnet, outputWeights_flood_drain]
  change [("pool", e.settle (e.settle (.ofWhole (.finite false u hu) -
    .float (.finite false u hu)) + .float (.infinite false)))] = _
  rw [Number.add_eq, Number.toBinary64, Number.Binary64.add_infinite hleft,
    Engine.settle_infinite hmode]

/-- The second then takes infinity from infinity, which is no number. -/
theorem not_nonNeg_fire_spill (hmarking : e.marking = [("pool", .float (.infinite false))]) :
    ¬(e.fire "spill").marking.NonNeg := by
  have hcovers : Engine.covers (Number.float (.infinite false)) (.float (.infinite false)) =
      true := by
    rw [Number.covers_eq]
    rfl
  rw [Engine.fire_pool hmode hmarking (by rw [hnet]; rfl)
    (by rw [hnet]; exact inputWeights_flood_spill) hcovers, hnet, outputWeights_flood_spill]
  intro h
  have hleft := Number.le_zero_iff.mp (h _ (List.mem_singleton_self _))
  rw [Engine.nonNeg_settle hmode] at hleft
  rcases hleft with hleft | hleft
  · cases hleft
  · cases hleft

end Flood

theorem not_nonNeg_flood [EntryOrder] {s : Simulation} {u : ℕ} {hu : Number.Fits u}
    {tokens : Number.Binary64} (hmode : s.engine.accounting = false)
    (hnet : s.engine.net = poolNet (drainEdge (.finite false u hu) :: floodEdges) tokens)
    (hmarking : s.engine.marking = [("pool", .ofWhole (.finite false u hu))]) :
    ¬(s.run [.fire "drain", .fire "spill"]).engine.marking.NonNeg := by
  change ¬((s.engine.fire "drain").fire "spill").marking.NonNeg
  exact not_nonNeg_fire_spill ((Engine.fire_accounting _ _).trans hmode)
    ((Engine.fire_net _ _).trans hnet) (fire_flood_drain hmode hnet hmarking)

/-- Beside an infinite weight any other leads to a place that holds no number. -/
theorem exists_run_of_infinite [EntryOrder] {weight : Number.Binary64}
    (hfinite : weight.isFinite = true) (hweight : Number.lt 0 (.float weight) = true) :
    ∃ tokens s, (Simulation.start (poolGraph (drainEdge weight :: floodEdges)) (some tokens) none
        {}).1 = .ok s ∧
      s.engine.accounting = false ∧
      (∀ a ∈ s.engine.net.arcs, a.weight.toBinary64.isFinite = true) ∧
      (∀ t, ∀ arc ∈ s.engine.net.inputWeights t,
        arc.2 = .float weight ∨ arc.2 = .float (.infinite false)) ∧
      ¬(s.run [.fire "drain", .fire "spill"]).engine.marking.NonNeg := by
  obtain ⟨u, hu, rfl⟩ := Number.exists_units_of_zero_lt hfinite hweight
  have htokens : Number.lt (.float (.finite false u hu)) 0 = false :=
    (Number.lt_zero_iff rfl).mpr (.finite (Int.natCast_nonneg u))
  have hedges : ∀ e ∈ drainEdge (.finite false u hu) :: floodEdges, IsPoolEdge e :=
    List.forall_mem_cons.mpr ⟨isPoolEdge_drainEdge hfinite hweight, isPoolEdge_floodEdges⟩
  refine ⟨_, _, start_poolGraph hedges ⟨_, List.mem_cons_self, rfl⟩ rfl htokens, rfl,
    isFinite_arcs_poolNet hedges _, fun t arc harc => eq_of_mem_inputWeights_flood harc, ?_⟩
  exact not_nonNeg_flood rfl rfl rfl

/-! ### The weights that keep counts above zero -/

namespace Engine

variable [EntryOrder]

/-- No place of a net that starts covers an infinite weight. -/
theorem isEnabled_eq_false_of_isFresh {g : Graph} {e : Engine Number} (ho : e.IsOf g false)
    (hfresh : e.IsFresh)
    (hinfinite : ∀ t, ∀ arc ∈ e.net.inputWeights t, arc.2.toBinary64 = .infinite false)
    (t : String) : e.isEnabled t = false := by
  by_contra ht
  obtain ⟨-, hne, hcovers⟩ := (isEnabledIn_iff ho.mode).mp (Bool.not_eq_false _ ▸ ht)
  obtain ⟨arc, harc⟩ := List.exists_mem_of_ne_nil _ hne
  have hheld := isFinite_get_of_isFresh ho hfresh arc.1
  specialize hcovers arc harc
  rw [Number.covers_eq, hinfinite t arc harc] at hcovers
  cases hm : (e.marking.get arc.1).toBinary64 with
  | finite =>
    rw [hm] at hcovers
    cases hcovers
  | infinite =>
    rw [hm] at hheld
    cases hheld
  | undefined =>
    rw [hm] at hheld
    cases hheld

end Engine

namespace Simulation

variable [EntryOrder] {g : Graph} {tokens : Option Number} {mode : Option Bool}
  {settings : SimulationSettings} {s : Simulation}
  (hs : (start g tokens mode settings).1 = .ok s) (htoken : s.engine.accounting = false)

include hs htoken

theorem nonNeg_run_of_sharp (hsharp : ∀ e : Engine Number, e.IsOf g false → e.TakesSharp)
    (requests : List Request) : (s.run requests).engine.marking.NonNeg := by
  have hrun := run_induction (P := fun e => e.Covers ∧ e.marking.NonNeg) hs ?_ ?_ requests
  · exact hrun.2.2
  · intro e ho hfresh
    rw [htoken] at ho
    exact ⟨hfresh.covers ho.mode, Engine.nonNeg_of_isFresh ho hfresh⟩
  · intro e t ho hp
    rw [htoken] at ho
    cases ht : e.isEnabled t with
    | false => rwa [Engine.fire_of_not_isEnabled ht]
    | true =>
      refine ⟨hp.1.fire ho.mode t, ?_⟩
      rw [Engine.fire_of_isEnabled ht]
      exact Engine.nonNeg_successor ho hp.1 (hsharp e ho) hp.2 ht

/-- Where all sums are infinite no transition is ever enabled. -/
theorem nonNeg_run_of_infinite
    (hinfinite : ∀ e : Engine Number, e.IsOf g false →
      ∀ t, ∀ arc ∈ e.net.inputWeights t, arc.2.toBinary64 = .infinite false)
    (requests : List Request) : (s.run requests).engine.marking.NonNeg := by
  have hrun := run_induction (P := Engine.IsFresh) hs (fun _ _ hfresh => hfresh) ?_ requests
  · rw [htoken] at hrun
    exact Engine.nonNeg_of_isFresh hrun.1 hrun.2
  · intro e t ho hfresh
    rw [htoken] at ho
    rwa [Engine.fire_of_not_isEnabled
      (Engine.isEnabled_eq_false_of_isFresh ho hfresh (hinfinite e ho) t)]

end Simulation

/-- **Counts stay above zero** exactly when weights are sharp: however the summed input
weights of a token net with finite arcs are restricted, no run leaves a place with less
than nothing if, and only if, each finite weight that is allowed is sharp and not allowed
beside an infinite sum. -/
theorem Simulation.nonNeg_run_iff [EntryOrder] (Allowed : Number.Binary64 → Prop) :
    (∀ (g : Graph) (tokens : Option Number) (mode : Option Bool) (settings : SimulationSettings)
        (s : Simulation), (Simulation.start g tokens mode settings).1 = .ok s →
        s.engine.accounting = false →
        (∀ a ∈ s.engine.net.arcs, a.weight.toBinary64.isFinite = true) →
        (∀ t, ∀ arc ∈ s.engine.net.inputWeights t, Allowed arc.2.toBinary64) →
        ∀ requests, (s.run requests).engine.marking.NonNeg) ↔
      ∀ weight : Number.Binary64, weight.isFinite = true → Number.lt 0 (.float weight) = true →
        Allowed weight →
          Engine.isSharp (Number.float weight) = true ∧ ¬Allowed (.infinite false) := by
  constructor
  · intro h weight hfinite hweight hallowed
    constructor
    · by_contra hsharp
      obtain ⟨tokens, s, hs, htoken, harcs, hweights, hneg⟩ :=
        exists_run_of_not_sharp hfinite hweight (Bool.not_eq_true _ ▸ hsharp)
      refine hneg (h _ _ _ _ s hs htoken harcs (fun t arc harc => ?_) [.fire "drain"])
      rw [hweights t arc harc]
      exact hallowed
    · intro hinfinite
      obtain ⟨tokens, s, hs, htoken, harcs, hweights, hneg⟩ :=
        exists_run_of_infinite hfinite hweight
      refine hneg (h _ _ _ _ s hs htoken harcs (fun t arc harc => ?_) _)
      rcases hweights t arc harc with heq | heq
      · rw [heq]
        exact hallowed
      · rw [heq]
        exact hinfinite
  · intro h g tokens mode settings s hs htoken _ hweights requests
    obtain ⟨-, ⟨-, _, -, hnet⟩, -⟩ := isOf_of_start hs
    rw [htoken] at hnet
    have hallowed : ∀ e : Engine Number, e.IsOf g false → ∀ t, ∀ arc ∈ e.net.inputWeights t,
        Allowed arc.2.toBinary64 ∧ Number.lt 0 (.float arc.2.toBinary64) = true := by
      rintro e ⟨-, _, -, hnet'⟩ t arc harc
      refine ⟨hweights t arc ?_, hnet'.zero_lt_weight harc⟩
      rwa [Net.inputWeights, hnet.weights_eq hnet']
    by_cases hinfinite : Allowed (.infinite false)
    · refine nonNeg_run_of_infinite hs htoken (fun e ho t arc harc => ?_) requests
      obtain ⟨ha, hpos⟩ := hallowed e ho t arc harc
      refine Number.eq_infinite_of_zero_lt hpos (Bool.eq_false_iff.mpr fun hfinite => ?_)
      exact (h _ hfinite hpos ha).2 hinfinite
    · refine nonNeg_run_of_sharp hs htoken (fun e ho t arc harc => ?_) requests
      obtain ⟨ha, hpos⟩ := hallowed e ho t arc harc
      have hfinite : arc.2.toBinary64.isFinite = true := by
        by_contra hnot
        rw [Number.eq_infinite_of_zero_lt hpos (Bool.not_eq_true _ ▸ hnot)] at ha
        exact hinfinite ha
      exact ⟨hfinite, Engine.isSharp_toBinary64 arc.2 ▸ (h _ hfinite hpos ha).1⟩

example : (List.range 20).filter (fun n => Engine.isSharp (Number.int n)) =
    [0, 1, 17, 18, 19] := by
  decide +kernel

/-- A pool that starts one tolerance short of a weight of two is left with less than
nothing: both tests let it pass, and the difference is a little more than the tolerance. -/
theorem count_below_zero :
    let g := Graph.ofOperations (operationsOf "# t [Transition]\n<has prior_state> 2 p;")
    let tokens := Number.float (Number.Decimal.mk false 1999999999999 (-12)).toBinary64
    ((Simulation.start g (some tokens) none {}).1.toOption.map fun s =>
      (s.engine.accounting,
        (s.run [.fire "t"]).engine.marking.map fun held => (held.1, Number.le 0 held.2))) =
      some (false, [("p", false)]) := by
  decide +kernel

end NoteGraph
