import NoteGraph.Engine.Simulation
import NoteGraph.Proofs.Net.OfGraph

/-!
# Firing, place by place

In a token net a firing changes every place on its own: an input place loses the summed
weight of its arcs, an output place then gains the summed weight of its own, and a place
without arcs keeps what it holds. The places of a marking stay the same, and a
simulation keeps the net of its graph whatever is asked of it.
-/

namespace NoteGraph

/-- What is checked of a result holds of a result that there is. -/
theorem exists_ok_of_any {ε α : Type} {x : Except ε α} {p : α → Prop} [DecidablePred p]
    (h : x.toOption.any (fun a => decide (p a)) = true) : ∃ a, x = .ok a ∧ p a := by
  cases x with
  | error => cases h
  | ok a => exact ⟨a, rfl, of_decide_eq_true h⟩

namespace Engine

variable {α : Type} [Quantity α]

/-- An engine whose marking lists the places of its net. -/
def Covers (e : Engine α) : Prop := e.marking.map (·.1) = e.net.placeNames

omit [Quantity α] in
theorem books_eq_false {e : Engine α} (h : e.accounting = false) (t : String) :
    e.books t = false := by
  rw [books, h, Bool.false_and]

theorem settle_eq {e : Engine α} (h : e.accounting = false) (value : α) :
    e.settle value = if Quantity.below (Quantity.magnitude value) Quantity.slack then 0
      else Quantity.count value := by
  simp [settle, h]

variable [EntryOrder]

theorem successor_eq {e : Engine α} (h : e.accounting = false) (m : Marking α) (t : String) :
    e.successor m t =
      Marking.sweep (fun held weight => e.settle (held + weight))
        (Marking.sweep (fun held weight => e.settle (held - weight)) m (e.net.inputWeights t))
        (e.net.outputWeights t) := by
  rw [successor, books_eq_false h t, if_neg Bool.false_ne_true]
  rfl

theorem map_fst_successor {e : Engine α} (h : e.accounting = false) {m : Marking α}
    (hm : m.map (·.1) = e.net.placeNames) (t : String) :
    (e.successor m t).map (·.1) = e.net.placeNames := by
  have hplaces : ∀ direction, ∀ arc ∈ e.net.weights direction t, arc.1 ∈ e.net.placeNames :=
    fun direction arc harc => (Net.mem_weights.mp harc).1
  have hin : ∀ arc ∈ e.net.inputWeights t, arc.1 ∈ m.map (·.1) := by
    rw [hm]
    exact hplaces .input
  have htaken := Marking.map_fst_sweep (fun held weight => e.settle (held - weight)) hin
  rw [successor_eq h, Marking.map_fst_sweep, htaken, hm]
  rw [htaken, hm]
  exact hplaces .output

/-- What a place holds after its input arcs have taken from it. -/
def afterTaking (e : Engine α) (m : Marking α) (t place : String) : α :=
  match (e.net.inputWeights t).lookup place with
  | some weight => e.settle (m.get place - weight)
  | none => m.get place

theorem get_successor {e : Engine α} (h : e.accounting = false) (hn : e.net.placeNames.Nodup)
    (m : Marking α) (t place : String) :
    (e.successor m t).get place =
      match (e.net.outputWeights t).lookup place with
      | some weight => e.settle (e.afterTaking m t place + weight)
      | none => e.afterTaking m t place := by
  have hin : ((e.net.inputWeights t).map (·.1)).Nodup := Net.nodup_weights hn .input t
  have hout : ((e.net.outputWeights t).map (·.1)).Nodup := Net.nodup_weights hn .output t
  rw [successor_eq h, Marking.get_sweep _ _ hout, Marking.get_sweep _ _ hin]
  rfl

theorem isEnabledIn_iff {e : Engine α} (h : e.accounting = false) {m : Marking α} {t : String} :
    e.isEnabledIn m t = true ↔ e.net.hasTransition t = true ∧ e.net.inputWeights t ≠ [] ∧
      ∀ arc ∈ e.net.inputWeights t, covers (m.get arc.1) arc.2 = true := by
  simp [isEnabledIn, books_eq_false h]

theorem mem_transitionNames_of_isEnabledIn {e : Engine α} {m : Marking α} {t : String}
    (h : e.isEnabledIn m t = true) : t ∈ e.net.transitionNames := by
  have ht : e.net.hasTransition t = true := (Bool.and_eq_true_iff.mp h).1
  simpa [Net.hasTransition, Net.transitionNames, List.any_eq_true] using ht

theorem fire_of_isEnabled {e : Engine α} {t : String} (h : e.isEnabled t = true) :
    e.fire t = { e with marking := e.successor e.marking t } := if_pos h

theorem fire_of_not_isEnabled {e : Engine α} {t : String} (h : e.isEnabled t = false) :
    e.fire t = e := if_neg (by rw [h]; exact Bool.false_ne_true)

@[simp] theorem fire_net (e : Engine α) (t : String) : (e.fire t).net = e.net := by
  unfold fire
  split_ifs <;> rfl

@[simp] theorem fire_accounting (e : Engine α) (t : String) :
    (e.fire t).accounting = e.accounting := by
  unfold fire
  split_ifs <;> rfl

theorem Covers.fire {e : Engine α} (h : e.accounting = false) (hc : e.Covers) (t : String) :
    (e.fire t).Covers := by
  cases ht : e.isEnabled t with
  | false => rwa [fire_of_not_isEnabled ht]
  | true =>
    rw [fire_of_isEnabled ht]
    exact map_fst_successor h hc t

theorem initialMarking_eq (net : Net α) (decimals : Int) :
    initialMarking net false decimals = net.places.map fun p => (p.name, Quantity.count p.tokens) :=
  if_neg Bool.false_ne_true

end Engine

/-! ### Runs of a simulation -/

namespace Simulation

variable [EntryOrder]

/-- What changes a simulation: a firing, or a reset with maybe another number of tokens. -/
inductive Request where
  | fire (transition : String)
  | reset (tokens : Option Number)
  deriving DecidableEq

/-- A simulation after a request. A reset that is refused leaves its engine alone. -/
def perform (s : Simulation) : Request → Simulation
  | .fire t => (s.fire t).1
  | .reset tokens => (s.reset tokens).simulation

/-- A simulation after some requests, one after another. -/
def run (s : Simulation) (requests : List Request) : Simulation := requests.foldl perform s

end Simulation

/-- An engine with the net of a graph, started with a number of tokens that is not
negative. -/
structure Engine.IsOf (g : Graph) (accounting : Bool) (e : Engine Number) : Prop where
  mode : e.accounting = accounting
  net : ∃ tokens, Number.lt tokens 0 = false ∧ g.IsNetOf accounting tokens e.net

/-- An engine in the marking in which it starts. -/
def Engine.IsFresh [EntryOrder] (e : Engine Number) : Prop :=
  e.marking = Engine.initialMarking e.net e.accounting e.decimals

theorem Engine.IsFresh.covers [EntryOrder] {e : Engine Number} (hfresh : e.IsFresh)
    (h : e.accounting = false) : e.Covers := by
  rw [Engine.Covers, hfresh, h, Engine.initialMarking_eq, List.map_map]
  rfl

namespace Simulation

variable [EntryOrder] {g : Graph}

/-- A simulation that starts has the net of its graph. -/
theorem isNetOf_of_start {s : Simulation} {tokens : Option Number} {mode : Option Bool}
    {settings : SimulationSettings} (h : (start g tokens mode settings).1 = .ok s) :
    s.graph = g ∧ Number.lt s.initialTokens 0 = false ∧
      g.IsNetOf s.engine.accounting s.initialTokens s.engine.net ∧ s.engine.IsFresh := by
  simp only [start] at h
  split_ifs at h with hneg
  cases hnet : (g.toNet (mode.getD g.hasTransactions) (tokens.getD settings.initialTokens)).1 with
  | error e =>
    rw [hnet] at h
    cases h
  | ok net =>
    rw [hnet] at h
    obtain rfl := Except.ok.inj h
    exact ⟨rfl, Bool.eq_false_iff.mpr hneg, Graph.isNetOf_of_toNet hnet, rfl⟩

theorem isOf_of_start {s : Simulation} {tokens : Option Number} {mode : Option Bool}
    {settings : SimulationSettings} (h : (start g tokens mode settings).1 = .ok s) :
    s.graph = g ∧ s.engine.IsOf g s.engine.accounting ∧ s.engine.IsFresh := by
  obtain ⟨hg, hneg, hnet, hfresh⟩ := isNetOf_of_start h
  exact ⟨hg, ⟨rfl, s.initialTokens, hneg, hnet⟩, hfresh⟩

/-- A reset leaves the engine alone, puts it back to its start, or starts a new one. -/
theorem reset_cases (s : Simulation) (tokens : Option Number) :
    (s.reset tokens).simulation.graph = s.graph ∧
      ((s.reset tokens).simulation.engine = s.engine ∨
        (s.reset tokens).simulation.engine = s.engine.restart ∨
        ∃ n net, Number.lt n 0 = false ∧ (s.graph.toNet s.engine.accounting n).1 = .ok net ∧
          (s.reset tokens).simulation.engine =
            Engine.start net s.engine.accounting s.engine.decimals) := by
  unfold reset
  split
  · exact ⟨rfl, Or.inr (Or.inl rfl)⟩
  · rename_i n _
    split_ifs with hneg
    · exact ⟨rfl, Or.inl rfl⟩
    · simp only
      split
      · exact ⟨rfl, Or.inl rfl⟩
      · rename_i net hnet
        exact ⟨rfl, Or.inr (Or.inr ⟨n, net, Bool.eq_false_iff.mpr hneg, hnet, rfl⟩)⟩

section Invariants

variable {accounting : Bool} {P : Engine Number → Prop}
  (hstart : ∀ e : Engine Number, e.IsOf g accounting → e.IsFresh → P e)
  (hfire : ∀ (e : Engine Number) (t : String), e.IsOf g accounting → P e → P (e.fire t))

include hstart hfire

theorem perform_keeps {s : Simulation} (hg : s.graph = g) (ho : s.engine.IsOf g accounting)
    (hp : P s.engine) (request : Request) :
    (s.perform request).graph = g ∧ (s.perform request).engine.IsOf g accounting ∧
      P (s.perform request).engine := by
  cases request with
  | fire t =>
    refine ⟨hg, ⟨?_, ?_⟩, hfire _ t ho hp⟩
    · exact (Engine.fire_accounting _ t).trans ho.mode
    · exact (Engine.fire_net s.engine t).symm ▸ ho.net
  | reset tokens =>
    obtain ⟨hgraph, hengine⟩ := s.reset_cases tokens
    refine ⟨hgraph.trans hg, ?_⟩
    change (s.reset tokens).simulation.engine.IsOf g accounting ∧
      P (s.reset tokens).simulation.engine
    rcases hengine with heq | heq | ⟨n, net, hn, hnet, heq⟩
    · rw [heq]
      exact ⟨ho, hp⟩
    · rw [heq]
      have hnew : s.engine.restart.IsOf g accounting := ⟨ho.mode, ho.net⟩
      exact ⟨hnew, hstart _ hnew rfl⟩
    · rw [heq]
      rw [hg, ho.mode] at hnet
      have hnew : (Engine.start net s.engine.accounting s.engine.decimals).IsOf g accounting :=
        ⟨ho.mode, n, hn, Graph.isNetOf_of_toNet hnet⟩
      exact ⟨hnew, hstart _ hnew rfl⟩

theorem run_keeps (requests : List Request) :
    ∀ {s : Simulation}, s.graph = g → s.engine.IsOf g accounting → P s.engine →
      (s.run requests).engine.IsOf g accounting ∧ P (s.run requests).engine := by
  induction requests with
  | nil => intro s _ ho hp; exact ⟨ho, hp⟩
  | cons request rest ih =>
    intro s hg ho hp
    obtain ⟨hg', ho', hp'⟩ := perform_keeps hstart hfire hg ho hp request
    exact ih hg' ho' hp'

end Invariants

/-- **Invariants of simulations**: what holds of every engine of a graph that starts, and
is kept by every firing, holds after any requests. -/
theorem run_induction {P : Engine Number → Prop} {s : Simulation} {tokens : Option Number}
    {mode : Option Bool} {settings : SimulationSettings}
    (hs : (start g tokens mode settings).1 = .ok s)
    (hstart : ∀ e : Engine Number, e.IsOf g s.engine.accounting → e.IsFresh → P e)
    (hfire : ∀ (e : Engine Number) (t : String), e.IsOf g s.engine.accounting → P e →
      P (e.fire t)) (requests : List Request) :
    (s.run requests).engine.IsOf g s.engine.accounting ∧ P (s.run requests).engine := by
  obtain ⟨hg, ho, hfresh⟩ := isOf_of_start hs
  exact run_keeps hstart hfire requests hg ho (hstart _ ho hfresh)

/-- The marking of a token net always lists the places of the net. -/
theorem covers_run {s : Simulation} {tokens : Option Number} {mode : Option Bool}
    {settings : SimulationSettings} (hs : (start g tokens mode settings).1 = .ok s)
    (htoken : s.engine.accounting = false) (requests : List Request) :
    (s.run requests).engine.IsOf g false ∧ (s.run requests).engine.Covers := by
  have h := run_induction (P := Engine.Covers) hs ?_ ?_ requests
  · rwa [htoken] at h
  · intro e ho hfresh
    exact hfresh.covers (ho.mode.trans htoken)
  · intro e t ho hc
    exact hc.fire (ho.mode.trans htoken) t

end Simulation

end NoteGraph
