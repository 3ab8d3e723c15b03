import NoteGraph.Compile
import NoteGraph.Proofs.Net.Checked
import NoteGraph.Proofs.Net.OfText

/-!
# What places start with

A place of an accounting net opens with the first balance that the basic morph of its node
lists, if that is an amount, and with nothing otherwise; the places of a token net from which
something is taken are seeded. A net can hold neither an infinite amount nor one that is no
number, and a text may well give such a balance: then its graph has no accounting net. Nothing
else keeps the net of a compiled text from being built.
-/

namespace NoteGraph

open Number (Binary64)

namespace Graph

/-- The balance that a node gives: the first that its basic morph lists. -/
def balance? (g : Graph) (n : Node) : Option String :=
  ((g.attributesOf n.id (some "balance")).find? fun a =>
    n.basic.attributeIds.contains a.id).map (·.value)

/-- What a place of an accounting net opens with: the amount that the balance of its node
gives, or nothing if there is no such amount. -/
def opening (g : Graph) (id : String) : Binary64 :=
  (((g.node? id).bind g.balance?).bind readAmount?).getD 0

/-- Some arc of the net of a graph leads from a place. -/
def HasInputs (g : Graph) : Prop := ∃ e ∈ g.arcEdges, e.name = priorState

/-- What the places of the net of a graph start with is finite. -/
def OpensFinite (g : Graph) (accounting : Bool) (tokens : Number) : Prop :=
  if accounting then ∀ id ∈ g.placeIds true, (g.opening id).isFinite = true
  else g.HasInputs → tokens.toBinary64.isFinite = true

/-- Why the net of a graph cannot start: a place of an accounting net opens with what is not
finite, or a token net cannot hold its number of tokens. -/
inductive CannotStart (g : Graph) : Bool → Number → NetError → Prop where
  | opening {tokens : Number} {id : String} : id ∈ g.placeIds true →
      (g.opening id).isFinite = false →
      CannotStart g true tokens (.tokensNotFinite (.float (g.opening id)))
  | tokens {tokens : Number} {e : NetError} : g.HasInputs → tokens.refusal? = some e →
      CannotStart g false tokens e

variable {g : Graph} {accounting : Bool} {tokens : Number} {net : Net Number}

/-! ### Seeds -/

theorem openingBalance_eq (g : Graph) (n : Node) :
    (g.openingBalance n).1 = .float (((g.balance? n).bind readAmount?).getD 0) := by
  unfold openingBalance balance?
  cases (g.attributesOf n.id (some "balance")).find? fun a =>
      n.basic.attributeIds.contains a.id with
  | none => rfl
  | some a =>
    simp only [Option.map_some, Option.bind_some]
    cases readAmount? a.value with
    | none => rfl
    | some amount => rfl

theorem seed_accounting (g : Graph) (tokens : Number) (id : String) :
    (g.seed true tokens id).1 = .float (g.opening id) := by
  unfold seed opening
  rw [if_pos rfl]
  cases g.node? id with
  | none => rfl
  | some n => exact g.openingBalance_eq n

/-! ### Refusals -/

theorem refusal?_float (x : Binary64) : (Number.float x).refusal? =
    if x.isFinite then none else some (.tokensNotFinite (.float x)) := by
  cases h : x.isFinite <;>
    simp [Number.refusal?, Number.isTooLarge, Number.isFinite, h]

theorem refusal?_zero : (Number.float 0).refusal? = none := by
  rw [refusal?_float, Binary64.zero_def, Binary64.zero_eq]
  rfl

theorem firstRefusal?_eq_none_iff :
    g.firstRefusal? accounting tokens = none ↔ g.OpensFinite accounting tokens := by
  rw [firstRefusal?, List.findSome?_eq_none_iff]
  cases accounting with
  | true =>
    refine forall₂_congr fun id _ => ?_
    rw [seed_accounting, refusal?_float]
    simp
  | false =>
    constructor
    · rintro hseeds ⟨e, he, hname⟩
      have hplace : e.targetId ∈ g.placeIds false :=
        mem_placeIds.mpr (Or.inl (List.mem_map_of_mem he))
      have hseed := hseeds e.targetId hplace
      rw [seed_tokens, if_pos ⟨e, he, hname, rfl⟩] at hseed
      exact Number.refusal?_eq_none_iff.mp hseed
    · intro hfinite id _
      rw [seed_tokens]
      split_ifs with hinput
      · obtain ⟨e, he, hname, -⟩ := hinput
        exact Number.refusal?_eq_none_iff.mpr (hfinite ⟨e, he, hname⟩)
      · exact refusal?_zero

theorem cannotStart_of_firstRefusal? {e : NetError}
    (h : g.firstRefusal? accounting tokens = some e) : g.CannotStart accounting tokens e := by
  obtain ⟨id, hid, hrefusal⟩ := List.exists_of_findSome?_eq_some h
  cases accounting with
  | true =>
    rw [seed_accounting, refusal?_float] at hrefusal
    split_ifs at hrefusal with hfinite
    obtain rfl := Option.some.inj hrefusal
    exact .opening hid (Bool.not_eq_true _ ▸ hfinite)
  | false =>
    rw [seed_tokens] at hrefusal
    split_ifs at hrefusal with hinput
    · obtain ⟨edge, hedge, hname, -⟩ := hinput
      exact .tokens ⟨edge, hedge, hname⟩ hrefusal
    · rw [refusal?_zero] at hrefusal
      cases hrefusal

/-! ### Graphs that have a net -/

/-- The weights of a graph that has a net are in reach. -/
theorem isTooLarge_of_toNet (h : (g.toNet accounting tokens).1 = .ok net) :
    ∀ e ∈ g.arcEdges, e.weight.isTooLarge = false := by
  simp only [toNet] at h
  split_ifs at h with hreach
  simpa using hreach

/-- A graph that has a net has one for every number of tokens that it can start with. -/
theorem toNet_eq_of_toNet (h : (g.toNet accounting tokens).1 = .ok net) (n : Number) :
    (g.toNet accounting n).1 = match g.firstRefusal? accounting n with
      | some e => .error e
      | none => .ok
        { places := (g.placeIds accounting).map (g.placeOf accounting n)
          transitions := g.transitionNodes.map fun n => ⟨n.id, some n.role⟩
          arcs := g.arcEdges.map arcOf } := by
  have hnet := isNetOf_of_toNet h
  exact toNet_eq (hnet.placeNames_eq ▸ hnet.nodup) (isTooLarge_of_toNet h) n

theorem toNet_eq_error_iff (h : (g.toNet accounting tokens).1 = .ok net) {n : Number}
    {e : NetError} :
    (g.toNet accounting n).1 = .error e ↔ g.firstRefusal? accounting n = some e := by
  rw [toNet_eq_of_toNet h n]
  cases g.firstRefusal? accounting n with
  | none => simp
  | some e' => simp

theorem opensFinite_of_toNet (h : (g.toNet accounting tokens).1 = .ok net) :
    g.OpensFinite accounting tokens := by
  rw [← firstRefusal?_eq_none_iff]
  cases hrefusal : g.firstRefusal? accounting tokens with
  | none => rfl
  | some e =>
    rw [(toNet_eq_error_iff h).mpr hrefusal] at h
    cases h

theorem firstRefusal?_tokens_eq_some_iff {n : Number} {e : NetError} :
    g.firstRefusal? false n = some e ↔ g.HasInputs ∧ n.refusal? = some e := by
  constructor
  · intro h
    cases cannotStart_of_firstRefusal? h with
    | tokens hinputs hrefusal => exact ⟨hinputs, hrefusal⟩
  · rintro ⟨hinputs, hrefusal⟩
    cases h : g.firstRefusal? false n with
    | none =>
      have hnone := Number.refusal?_eq_none_iff.mpr (firstRefusal?_eq_none_iff.mp h hinputs)
      rw [hnone] at hrefusal
      cases hrefusal
    | some e' =>
      cases cannotStart_of_firstRefusal? h with
      | tokens _ hrefusal' => exact hrefusal'.symm.trans hrefusal

/-! ### Compiled texts -/

/-- The places of an accounting net hold at the start what they open with. -/
theorem IsNetOf.tokens_eq_opening (h : g.IsNetOf true tokens net) {place : Place Number}
    (hplace : place ∈ net.places) : place.tokens = .float (g.opening place.name) := by
  rw [h.places] at hplace
  obtain ⟨id, -, rfl⟩ := List.mem_map.mp hplace
  rw [placeOf, seed_accounting]
  rfl

end Graph

/-- **Every compiled text has a net** when what its places start with is finite: all checks of
the building pass. Otherwise the net is refused, for what a place starts with and never for a
name, an arc or a weight. -/
theorem buildNet_compile (text : String) (catalog : Schema.Catalog) (accounting : Bool)
    (tokens : Number) :
    let g := (compile text catalog).graph
    (g.toNet accounting tokens).1 = g.buildNet accounting tokens ∧
      (g.OpensFinite accounting tokens → ∃ net, g.buildNet accounting tokens = .ok net ∧
        g.IsNetOf accounting tokens net ∧ (accounting = true →
          ∀ place ∈ net.places, place.tokens = .float (g.opening place.name))) ∧
      (¬g.OpensFinite accounting tokens → ∃ e, g.buildNet accounting tokens = .error e ∧
        g.CannotStart accounting tokens e) := by
  intro g
  have hn : (g.nodes.map (·.id)).Nodup := Graph.nodup_map_id_nodes (operationsOf text)
  have hweights : ∀ e ∈ g.arcEdges, e.weight.isTooLarge = false := fun e he =>
    isTooLarge_weight (List.mem_filter.mp (List.mem_filter.mp he).1).1
  have hbuilt := Graph.buildNet_eq hn accounting tokens
  have hnet := Graph.toNet_eq (Graph.nodup_placeIds hn accounting) hweights tokens
  rw [← Graph.firstRefusal?_eq_none_iff, hbuilt]
  refine ⟨rfl, fun hnone => ?_, fun hsome => ?_⟩
  · rw [hnone] at hnet
    have h := Graph.isNetOf_of_toNet hnet
    refine ⟨_, hnet, h, ?_⟩
    rintro rfl place hplace
    exact h.tokens_eq_opening hplace
  · obtain ⟨e, he⟩ := Option.ne_none_iff_exists'.mp hsome
    have hcannot := Graph.cannotStart_of_firstRefusal? he
    rw [he] at hnet
    exact ⟨e, hnet, hcannot⟩

/-- A balance that is no amount counts as none. -/
example : (compile "# a [Asset]\nbalance: x" {}).graph.opening "a" = 0 := by decide +kernel

/-- The text of an infinite balance is read as an amount, and then no net can hold it. -/
theorem toNet_infinite_balance :
    let g := (compile "# a [Asset]\nbalance: inf" {}).graph
    readAmount? "inf" = some (.infinite false) ∧
      (g.toNet true (.int 1)).1 = .error (.tokensNotFinite (.float (.infinite false))) := by
  decide +kernel

end NoteGraph
