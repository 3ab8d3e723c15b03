import NoteGraph.Proofs.Engine.Resets

/-!
# A reset leaves no trace

Whatever was fired and however often the number of tokens was changed: after a reset that is
accepted a simulation is the one that starts on the same graph with the number of tokens it
then has. What carries this through a run is that the net of a simulation is always the one
that the graph has for the number of tokens that the simulation remembers (`IsBuilt`), so that
a reset to this number may keep the net and need not build it anew.
-/

namespace NoteGraph

/-- A number of tokens that every reset accepts: not below zero, and finite as a floating-point
number. -/
def Number.IsCount (n : Number) : Prop := Number.lt n 0 = false ∧ n.toBinary64.isFinite = true

instance (n : Number) : Decidable n.IsCount := inferInstanceAs (Decidable (_ ∧ _))

@[simp] theorem Engine.fire_decimals [EntryOrder] {α : Type} [Quantity α] (e : Engine α)
    (t : String) :
    (e.fire t).decimals = e.decimals := by
  unfold fire
  split_ifs <;> rfl

namespace Simulation

variable [EntryOrder]

/-- A firing, or a reset that is accepted. -/
def Request.IsAccepted : Request → Prop
  | .fire _ => True
  | .reset tokens => ∀ n ∈ tokens, n.IsCount

/-- A simulation that has, but for its marking, what one has that starts on a graph with the
number of tokens that it remembers. -/
structure IsBuilt (g : Graph) (mode : Option Bool) (settings : SimulationSettings)
    (s : Simulation) : Prop where
  decimals : s.engine.decimals = settings.monetaryDecimals
  settings : s.settings = settings
  graph : s.graph = g
  mode : s.engine.accounting = mode.getD g.hasTransactions
  nonneg : Number.lt s.initialTokens 0 = false
  /-- The net is the one that the graph has for this number of tokens. -/
  net : (g.toNet s.engine.accounting s.initialTokens).1 = .ok s.engine.net

section Built

variable {g : Graph} {mode : Option Bool} {settings : SimulationSettings} {s : Simulation}

theorem isBuilt_of_start {tokens : Option Number}
    (h : (start g tokens mode settings).1 = .ok s) : s.IsBuilt g mode settings := by
  obtain ⟨hgraph, hnonneg, -, -⟩ := isNetOf_of_start h
  obtain ⟨-, hnet⟩ := toNet_of_start h
  simp only [start] at h
  split_ifs at h
  cases hbuilt : (g.toNet (mode.getD g.hasTransactions) (tokens.getD settings.initialTokens)).1 with
  | error e =>
    rw [hbuilt] at h
    cases h
  | ok net =>
    rw [hbuilt] at h
    obtain rfl := Except.ok.inj h
    exact ⟨rfl, rfl, hgraph, rfl, hnonneg, hnet⟩

/-- In its first marking such a simulation is the one that starts. -/
theorem IsBuilt.start_eq (h : s.IsBuilt g mode settings) (hfresh : s.engine.IsFresh) :
    (start g (some s.initialTokens) mode settings).1 = .ok s := by
  have hengine : Engine.start s.engine.net s.engine.accounting settings.monetaryDecimals =
      s.engine := by
    rw [← h.decimals, Engine.start, ← hfresh]
  have hsimulation : s = ⟨g, settings, s.initialTokens, s.engine⟩ := by
    rw [← h.graph, ← h.settings]
  have hnet := h.net
  rw [h.mode] at hnet
  simp only [start, Option.getD_some, h.nonneg, Bool.false_eq_true, if_false, hnet, Except.map]
  rw [← h.mode, hengine, ← hsimulation]

theorem IsBuilt.fire (h : s.IsBuilt g mode settings) (t : String) :
    (s.perform (.fire t)).IsBuilt g mode settings := by
  have hmode : (s.engine.fire t).accounting = s.engine.accounting := s.engine.fire_accounting t
  refine ⟨(s.engine.fire_decimals t).trans h.decimals, h.settings, h.graph,
    hmode.trans h.mode, h.nonneg, ?_⟩
  · change (g.toNet (s.engine.fire t).accounting s.initialTokens).1 = .ok (s.engine.fire t).net
    rw [hmode, Engine.fire_net]
    exact h.net

omit [EntryOrder] in
/-- The graph has a net for every number of tokens that is accepted. -/
theorem IsBuilt.exists_toNet (h : s.IsBuilt g mode settings) {n : Number} (hn : n.IsCount) :
    ∃ net, (g.toNet s.engine.accounting n).1 = .ok net := by
  have hs : s.HasNet := ⟨s.initialTokens, s.engine.net, h.graph ▸ h.net⟩
  cases hnet : (g.toNet s.engine.accounting n).1 with
  | ok net => exact ⟨net, rfl⟩
  | error e =>
    obtain ⟨-, -, hrefusal⟩ := hs.toNet_eq_error_iff.mp (h.graph.symm ▸ hnet)
    rw [Number.refusal?_eq_none_iff.mpr hn.2] at hrefusal
    cases hrefusal

/-- A reset that is accepted, as `outcome`: it answers with the marking in which the simulation
starts, which then remembers the number of tokens that it was given. -/
structure Restarts (g : Graph) (mode : Option Bool) (settings : SimulationSettings)
    (tokens : Option Number) (outcome : ResetOutcome) : Prop where
  built : outcome.simulation.IsBuilt g mode settings
  fresh : outcome.simulation.engine.IsFresh
  answer : outcome.answer = .ok outcome.simulation.engine.marking
  remembers : ∀ n ∈ tokens, n.same outcome.simulation.initialTokens = true

theorem IsBuilt.reset (h : s.IsBuilt g mode settings) {tokens : Option Number}
    (htokens : ∀ n ∈ tokens, n.IsCount) : Restarts g mode settings tokens (s.reset tokens) := by
  by_cases hsame : ∀ n ∈ tokens, n.same s.initialTokens = true
  · -- the number is the one remembered, and the net is kept
    have hnone : (tokens.filter fun n => !n.same s.initialTokens) = none := by simpa using hsame
    have heq : s.reset tokens =
        ⟨.ok s.engine.restart.marking, { s with engine := s.engine.restart }, []⟩ := by
      rw [Simulation.reset, hnone]
    rw [heq]
    exact ⟨⟨h.decimals, h.settings, h.graph, h.mode, h.nonneg, h.net⟩, rfl, rfl, hsame⟩
  · push Not at hsame
    obtain ⟨n, rfl, hother⟩ := hsame
    have hn : n.IsCount := htokens n rfl
    obtain ⟨net, hnet⟩ := h.exists_toNet hn
    have heq := reset_of_other (Bool.eq_false_iff.mpr hother) hn.1
    rw [h.graph, hnet] at heq
    rw [heq]
    refine ⟨⟨h.decimals, h.settings, rfl, h.mode, hn.1, hnet⟩, rfl, rfl, fun m hm => ?_⟩
    obtain rfl := Option.some.inj hm
    refine (Number.same_self_iff n).mpr ?_
    rintro rfl
    cases hn.2

theorem IsBuilt.run (requests : List Request) : ∀ {s : Simulation}, s.IsBuilt g mode settings →
    (∀ request ∈ requests, request.IsAccepted) → (s.run requests).IsBuilt g mode settings := by
  induction requests with
  | nil => exact fun h _ => h
  | cons request rest ih =>
    intro s h haccepted
    obtain ⟨hrequest, hrest⟩ := List.forall_mem_cons.mp haccepted
    refine ih ?_ hrest
    cases request with
    | fire t => exact h.fire t
    | reset tokens => exact (h.reset hrequest).built

end Built

/-- **A reset leaves no trace**: after any firings and accepted resets, a reset that is accepted
answers with the marking of a simulation that starts on the same graph with the number of tokens
that is then remembered, and leaves a simulation that goes on like this one. -/
theorem reset_run_eq_start {g : Graph} {tokens : Option Number} {mode : Option Bool}
    {settings : SimulationSettings} {s₀ : Simulation}
    (hs : (start g tokens mode settings).1 = .ok s₀) {requests : List Request}
    (hrequests : ∀ request ∈ requests, request.IsAccepted) {last : Option Number}
    (hlast : ∀ n ∈ last, n.IsCount) :
    let outcome := (s₀.run requests).reset last
    let after := outcome.simulation
    (∀ n ∈ last, n.same after.initialTokens = true) ∧
      ∃ fresh, (start g (some after.initialTokens) mode settings).1 = .ok fresh ∧
        outcome.answer = .ok fresh.engine.marking ∧
        after.engine.marking = fresh.engine.marking ∧
        ∀ ts : List String, (after.run (ts.map .fire)).engine.marking =
          (fresh.run (ts.map .fire)).engine.marking := by
  intro outcome after
  have h := ((isBuilt_of_start hs).run requests hrequests).reset hlast
  exact ⟨h.remembers, after, h.built.start_eq h.fresh, h.answer, rfl, fun _ => rfl⟩

end Simulation

/-- A loan that is paid out and drawn on, among other accounts. -/
def drawingGraph : Graph :=
  .ofOperations (operationsOf
    ("# cash [Asset]\nbalance: 7\n# t [Transaction]\n<credit> 2 loan;\n<debit> 2 cash;\n" ++
      "# u [Transition]\n<has prior_state> 3 cash;"))

theorem reset_run_drawingGraph :
    let requests : List Simulation.Request :=
      [.fire "t", .reset (some (.int 3)), .fire "u", .fire "t", .reset none, .fire "u"]
    let last : Option Number := some (.float (.ofInt 3))
    ∃ s₀, (Simulation.start drawingGraph none none {}).1 = .ok s₀ ∧
      (∀ request ∈ requests, request.IsAccepted) ∧ (∀ n ∈ last, n.IsCount) ∧
      let after := ((s₀.run requests).reset last).simulation
      (∀ n ∈ last, n.same after.initialTokens = true) ∧
        ∃ fresh, (Simulation.start drawingGraph (some after.initialTokens) none {}).1 = .ok fresh ∧
          ((s₀.run requests).reset last).answer = .ok fresh.engine.marking ∧
          after.engine.marking = fresh.engine.marking ∧
          ∀ ts : List String, (after.run (ts.map .fire)).engine.marking =
            (fresh.run (ts.map .fire)).engine.marking := by
  intro requests last
  have haccepted : ∀ request ∈ requests, request.IsAccepted := by
    have hcount : (Number.int 3).IsCount := by decide +kernel
    simp only [requests, List.forall_mem_cons]
    exact ⟨trivial, by simpa [Simulation.Request.IsAccepted] using hcount, trivial, trivial,
      by simp [Simulation.Request.IsAccepted], trivial, List.forall_mem_nil _⟩
  have hlast : ∀ n ∈ last, n.IsCount := by
    have hcount : (Number.float (.ofInt 3)).IsCount := by decide +kernel
    simpa [last] using hcount
  obtain ⟨s₀, hs, -⟩ := exists_ok_of_any (x := (Simulation.start drawingGraph none none {}).1)
    (p := fun _ => True) (by decide +kernel)
  exact ⟨s₀, hs, haccepted, hlast, Simulation.reset_run_eq_start hs haccepted hlast⟩

end NoteGraph
