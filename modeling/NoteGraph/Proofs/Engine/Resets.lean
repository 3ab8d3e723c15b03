import NoteGraph.Net.RowSort
import NoteGraph.Proofs.Engine.Firing
import NoteGraph.Proofs.Net.Opening
import NoteGraph.Proofs.Number.SameValue

/-!
# Resets that fail

A reset with another number of tokens fails if the number is below zero, or if the places of
a token net cannot hold it. It then leaves the net and the marking as they are, but what it
leaves of the number of tokens depends on the failure: a number below zero is dropped, any
other is kept although nothing was started with it. So the same reset, asked once more, is
answered with the old net.
-/

namespace NoteGraph

namespace Simulation

variable [EntryOrder] {g : Graph} {s : Simulation} {n : Number} {e : NetError}

/-- Why a reset with another number of tokens fails: the number is below zero, or the places
of a token net cannot hold it. -/
inductive Refuses (s : Simulation) (n : Number) : NetError → Prop where
  | negative : Number.lt n 0 = true → s.Refuses n (.negativeTokens n)
  | tokens {e : NetError} : Number.lt n 0 = false → s.engine.accounting = false →
      s.graph.HasInputs → n.refusal? = some e → s.Refuses n e

/-- The graph of a simulation has a net in the mode of the simulation. -/
def HasNet (s : Simulation) : Prop :=
  ∃ tokens net, (s.graph.toNet s.engine.accounting tokens).1 = .ok net

/-! ### Runs -/

theorem toNet_of_start {tokens : Option Number} {mode : Option Bool}
    {settings : SimulationSettings} (h : (start g tokens mode settings).1 = .ok s) :
    s.graph = g ∧ (s.graph.toNet s.engine.accounting s.initialTokens).1 = .ok s.engine.net := by
  simp only [start] at h
  split_ifs at h
  cases hnet : (g.toNet (mode.getD g.hasTransactions) (tokens.getD settings.initialTokens)).1 with
  | error e =>
    rw [hnet] at h
    cases h
  | ok net =>
    rw [hnet] at h
    obtain rfl := Except.ok.inj h
    exact ⟨rfl, hnet⟩

theorem accounting_perform (s : Simulation) (request : Request) :
    (s.perform request).engine.accounting = s.engine.accounting := by
  cases request with
  | fire t => exact Engine.fire_accounting s.engine t
  | reset tokens =>
    obtain ⟨-, heq | heq | ⟨n, net, -, -, heq⟩⟩ := s.reset_cases tokens
    all_goals
      change (s.reset tokens).simulation.engine.accounting = _
      rw [heq]
    all_goals rfl

theorem graph_perform (s : Simulation) (request : Request) :
    (s.perform request).graph = s.graph := by
  cases request with
  | fire t => rfl
  | reset tokens => exact (s.reset_cases tokens).1

/-- The graph and the mode of a simulation never change. -/
theorem run_fixed (requests : List Request) : ∀ s : Simulation,
    (s.run requests).graph = s.graph ∧
      (s.run requests).engine.accounting = s.engine.accounting := by
  induction requests with
  | nil => exact fun _ => ⟨rfl, rfl⟩
  | cons request rest ih =>
    intro s
    obtain ⟨hgraph, hmode⟩ := ih (s.perform request)
    exact ⟨hgraph.trans (s.graph_perform request), hmode.trans (s.accounting_perform request)⟩

theorem hasNet_run (hnet : (s.graph.toNet s.engine.accounting s.initialTokens).1 = .ok s.engine.net)
    (requests : List Request) : (s.run requests).HasNet := by
  obtain ⟨hgraph, hmode⟩ := run_fixed requests s
  rw [HasNet, hgraph, hmode]
  exact ⟨_, _, hnet⟩

/-! ### One reset -/

theorem reset_of_same {tokens : Option Number} (h : ∀ n ∈ tokens, n.same s.initialTokens = true) :
    (s.reset tokens).answer = .ok s.engine.restart.marking := by
  have hnone : (tokens.filter fun n => !n.same s.initialTokens) = none := by
    simpa using h
  rw [reset, hnone]

theorem reset_of_negative (h : n.same s.initialTokens = false) (hneg : Number.lt n 0 = true) :
    s.reset (some n) = ⟨.error (.negativeTokens n), s, []⟩ := by
  rw [reset, Option.filter_some_pos (by rw [h]; rfl)]
  exact if_pos hneg

/-- Any other number is kept before the net is built. -/
theorem reset_of_other (h : n.same s.initialTokens = false) (hneg : Number.lt n 0 = false) :
    s.reset (some n) = match (s.graph.toNet s.engine.accounting n).1 with
      | .error e => ⟨.error e, { s with initialTokens := n },
          (s.graph.toNet s.engine.accounting n).2⟩
      | .ok net =>
        let engine := Engine.start net s.engine.accounting s.engine.decimals
        ⟨.ok engine.marking, { s with initialTokens := n, engine },
          (s.graph.toNet s.engine.accounting n).2⟩ := by
  rw [reset, Option.filter_some_pos (by rw [h]; rfl)]
  exact if_neg (by rw [hneg]; exact Bool.false_ne_true)

omit [EntryOrder] in
/-- A net that cannot be built anew is that of a token simulation, and refuses the number. -/
theorem HasNet.toNet_eq_error_iff (hs : s.HasNet) :
    (s.graph.toNet s.engine.accounting n).1 = .error e ↔
      s.engine.accounting = false ∧ s.graph.HasInputs ∧ n.refusal? = some e := by
  obtain ⟨tokens, net, hnet⟩ := hs
  cases hmode : s.engine.accounting with
  | true =>
    rw [hmode] at hnet
    have hopens : s.graph.OpensFinite true tokens := Graph.opensFinite_of_toNet hnet
    -- what the places open with does not depend on the number of tokens
    change s.graph.OpensFinite true n at hopens
    have hnone := Graph.firstRefusal?_eq_none_iff.mpr hopens
    rw [Graph.toNet_eq_error_iff hnet, hnone]
    simp
  | false =>
    rw [hmode] at hnet
    rw [Graph.toNet_eq_error_iff hnet, Graph.firstRefusal?_tokens_eq_some_iff]
    simp

theorem HasNet.answer_reset_iff (hs : s.HasNet) : (s.reset (some n)).answer = .error e ↔
    n.same s.initialTokens = false ∧ s.Refuses n e := by
  cases hsame : n.same s.initialTokens with
  | true =>
    rw [reset_of_same (by simpa using hsame)]
    simp
  | false =>
    cases hneg : Number.lt n 0 with
    | true =>
      rw [reset_of_negative hsame hneg]
      constructor
      · intro h
        obtain rfl := Except.error.inj h
        exact ⟨rfl, .negative hneg⟩
      · rintro ⟨-, hrefuses⟩
        cases hrefuses with
        | negative => rfl
        | tokens hneg' => rw [hneg] at hneg'; cases hneg'
    | false =>
      have hrefuses : s.Refuses n e ↔ (s.graph.toNet s.engine.accounting n).1 = .error e := by
        rw [hs.toNet_eq_error_iff]
        constructor
        · intro h
          cases h with
          | negative hneg' => rw [hneg] at hneg'; cases hneg'
          | tokens _ hmode hinputs hrefusal => exact ⟨hmode, hinputs, hrefusal⟩
        · rintro ⟨hmode, hinputs, hrefusal⟩
          exact .tokens hneg hmode hinputs hrefusal
      rw [reset_of_other hsame hneg, hrefuses]
      cases (s.graph.toNet s.engine.accounting n).1 with
      | error e' => simp
      | ok net => simp

/-- What a failing reset leaves. -/
theorem simulation_reset_of_error (h : (s.reset (some n)).answer = .error e) :
    (s.reset (some n)).simulation =
      if Number.lt n 0 then s else { s with initialTokens := n } := by
  cases hsame : n.same s.initialTokens with
  | true =>
    rw [reset_of_same (by simpa using hsame)] at h
    cases h
  | false =>
    cases hneg : Number.lt n 0 with
    | true =>
      rw [reset_of_negative hsame hneg]
      rfl
    | false =>
      rw [reset_of_other hsame hneg] at h ⊢
      cases hnet : (s.graph.toNet s.engine.accounting n).1 with
      | error e' => rfl
      | ok net =>
        rw [hnet] at h
        cases h

/-- What a reset that fails leaves of a simulation, as `after`: all but the number of tokens
is as before. That number is as before exactly if the reset was refused for its sign, or is
the undefined number that an earlier failure left. Otherwise it is the refused number, and the
reset, asked once more, is answered with the start of the net that was there before. -/
structure LeftByReset (s : Simulation) (n : Number) (after : Simulation) : Prop where
  graph : after.graph = s.graph
  settings : after.settings = s.settings
  /-- The net and the marking. -/
  engine : after.engine = s.engine
  unchanged : after = s ↔ Number.lt n 0 = true ∨ n = s.initialTokens
  changed : after ≠ s → after.initialTokens = n ∧
    (n ≠ .float .undefined → (after.reset (some n)).answer = .ok s.engine.restart.marking)

theorem leftByReset_of_error (h : (s.reset (some n)).answer = .error e) :
    s.LeftByReset n (s.reset (some n)).simulation := by
  rw [simulation_reset_of_error h]
  cases hneg : Number.lt n 0 with
  | true =>
    rw [if_pos rfl]
    exact ⟨rfl, rfl, rfl, iff_of_true rfl (Or.inl hneg), fun hne => absurd rfl hne⟩
  | false =>
    rw [if_neg Bool.false_ne_true]
    refine ⟨rfl, rfl, rfl, ?_, fun _ => ⟨rfl, fun hdefined => ?_⟩⟩
    · constructor
      · intro heq
        exact Or.inr (congrArg Simulation.initialTokens heq)
      · rintro (hlt | rfl)
        · rw [hneg] at hlt
          cases hlt
        · rfl
    · refine reset_of_same fun m hm => ?_
      obtain rfl := Option.some.inj hm
      exact (Number.same_self_iff n).mpr hdefined

/-- No failing reset changes anything, unless places of a token net are seeded. -/
theorem forall_unchanged_iff {s₀ : Simulation}
    (hnet : (s₀.graph.toNet s₀.engine.accounting s₀.initialTokens).1 = .ok s₀.engine.net) :
    (∀ requests n e, ((s₀.run requests).reset (some n)).answer = .error e →
      ((s₀.run requests).reset (some n)).simulation = s₀.run requests) ↔
      s₀.engine.accounting = true ∨ ¬s₀.graph.HasInputs := by
  constructor
  · intro hall
    by_contra hnot
    obtain ⟨hmode, hinputs⟩ := not_or.mp hnot
    rw [Bool.not_eq_true] at hmode
    rw [not_not] at hinputs
    -- an infinite number of tokens is refused and kept
    let n : Number := .float (.infinite false)
    have hfinite : s₀.initialTokens.toBinary64.isFinite = true := by
      rw [hmode] at hnet
      exact Graph.opensFinite_of_toNet hnet hinputs
    have hrefuses : s₀.Refuses n (.tokensNotFinite n) := .tokens rfl hmode hinputs rfl
    have hanswer := (hasNet_run hnet []).answer_reset_iff.mpr
      ⟨Number.same_infinite false hfinite, hrefuses⟩
    rcases (leftByReset_of_error hanswer).unchanged.mp (hall [] n _ hanswer) with hneg | heq
    · exact absurd hneg (by decide)
    · have hsame : n = s₀.initialTokens := heq
      rw [← hsame] at hfinite
      cases hfinite
  · intro hor requests n e h
    obtain ⟨hgraph, hmode⟩ := run_fixed requests s₀
    rw [(leftByReset_of_error h).unchanged]
    obtain ⟨-, hrefuses⟩ := (hasNet_run hnet requests).answer_reset_iff.mp h
    cases hrefuses with
    | negative hneg => exact Or.inl hneg
    | tokens _ htoken hinputs _ =>
      rw [hmode] at htoken
      rw [hgraph] at hinputs
      rcases hor with haccounting | hnone
      · rw [htoken] at haccounting
        cases haccounting
      · exact absurd hinputs hnone

/-- **A reset that fails** leaves the net and the marking alone, but not always the number of
tokens. It fails for no other reasons than a number below zero and one that the places of a
token net cannot hold; so without seeded places a failing reset changes nothing. -/
theorem reset_run_eq_error_iff {s₀ : Simulation} {tokens : Option Number} {mode : Option Bool}
    {settings : SimulationSettings} (hs : (start g tokens mode settings).1 = .ok s₀) :
    (∀ requests, let s := s₀.run requests
      (∀ e, (s.reset none).answer ≠ .error e) ∧ ∀ n e,
        ((s.reset (some n)).answer = .error e ↔
          n.same s.initialTokens = false ∧ s.Refuses n e) ∧
        ((s.reset (some n)).answer = .error e →
          s.LeftByReset n (s.reset (some n)).simulation)) ∧
      ((∀ requests n e, ((s₀.run requests).reset (some n)).answer = .error e →
        ((s₀.run requests).reset (some n)).simulation = s₀.run requests) ↔
        s₀.engine.accounting = true ∨ ¬g.HasInputs) := by
  obtain ⟨rfl, hnet⟩ := toNet_of_start hs
  refine ⟨fun requests => ⟨fun e h => ?_, fun n e => ⟨?_, leftByReset_of_error⟩⟩, ?_⟩
  · rw [reset_of_same (by simp)] at h
    cases h
  · exact (hasNet_run hnet requests).answer_reset_iff
  · exact forall_unchanged_iff hnet

end Simulation

/-- A transition that takes from a place. -/
def takingGraph : Graph :=
  .ofOperations (operationsOf "# t [Transition]\n<has prior_state> p;")

/-- A reset with an infinite number of tokens, after a firing and another failing reset. -/
theorem reset_run_takingGraph :
    ∃ s₀, (Simulation.start takingGraph none none {}).1 = .ok s₀ ∧
      let s := s₀.run [.fire "t", .reset (some (.int (-1)))]
      let n : Number := .float (.infinite false)
      (s.reset (some n)).answer = .error (.tokensNotFinite n) ∧
        s.LeftByReset n (s.reset (some n)).simulation := by
  obtain ⟨s₀, hs, hanswer⟩ := exists_ok_of_any (x := (Simulation.start takingGraph none none {}).1)
    (p := fun s₀ => ((s₀.run [.fire "t", .reset (some (.int (-1)))]).reset
      (some (.float (.infinite false)))).answer =
        .error (.tokensNotFinite (.float (.infinite false)))) (by decide +kernel)
  have h := (Simulation.reset_run_eq_error_iff hs).1 [.fire "t", .reset (some (.int (-1)))]
  exact ⟨s₀, hs, hanswer, (h.2 _ _).2 hanswer⟩

/-- The reset fails, and the number of tokens it was refused is kept. -/
theorem initialTokens_of_failing_reset :
    (Simulation.start takingGraph none none {}).1.toOption.map (fun s =>
      let outcome := s.reset (some (.float (.infinite false)))
      (s.initialTokens, outcome.answer, outcome.simulation.initialTokens)) =
      some (.int 1, .error (.tokensNotFinite (.float (.infinite false))),
        .float (.infinite false)) := by
  decide +kernel

end NoteGraph
