import Mathlib.Data.List.Lex
import NoteGraph.Net.RowSort
import NoteGraph.Proofs.Net.Flow
import NoteGraph.Proofs.Net.UpToDate

/-!
# The report on the shape of a net is exact

After any calls the report of a net under construction lists exactly the places and transitions
without arcs, the transitions that produce without consuming, and the components of the flow that
hold a cycle and of which every place starts with nothing or less. The listed components share no
place, so a cycle through such a component is in exactly one of them
(`NetBuilder.isExact_topology_run`).
-/

namespace NoteGraph

/-! ### Sorted lists -/

theorem lex_eq_true_iff {a b : List String} :
    (a.lex b fun s t => decide (s < t)) = true ↔ a < b := by
  rw [List.lex_eq_true_iff_lex]
  simp only [decide_eq_true_eq]
  rfl

theorem sortNameLists_perm (lists : List (List String)) : (sortNameLists lists).Perm lists :=
  List.mergeSort_perm _ _

theorem pairwise_lt_sortNameLists {lists : List (List String)} (hn : lists.Nodup) :
    (sortNameLists lists).Pairwise (· < ·) := by
  have hle : ∀ a b : List String,
      (!b.lex a fun s t => decide (s < t)) = true ↔ a ≤ b := by
    intro a b
    rw [Bool.not_eq_true', ← Bool.not_eq_true, lex_eq_true_iff, not_lt]
  have hsorted : (sortNameLists lists).Pairwise (· ≤ ·) := by
    refine (List.pairwise_mergeSort (fun a b c h h' => ?_) (fun a b => ?_) lists).imp
      fun {a b} h => (hle a b).mp h
    · rw [hle] at h h' ⊢
      exact h.trans h'
    · rw [Bool.or_eq_true, hle, hle]
      exact le_total a b
  have hne : (sortNameLists lists).Pairwise (· ≠ ·) := (sortNameLists_perm lists).nodup_iff.mpr hn
  exact hsorted.imp₂ (fun _ _ => lt_of_le_of_ne) hne

/-! ### What the report says -/

namespace Net

variable {α : Type} [Quantity α]

/-- Every one of some places starts with nothing or less. -/
def IsUnseeded (net : Net α) (c : List String) : Prop :=
  ∀ place ∈ net.places, place.name ∈ c → Quantity.atMost place.tokens 0 = true

/-- Whether a place starts with more than nothing is told by whether it starts with nothing or
less. -/
def HasComparableTokens (net : Net α) : Prop :=
  ∀ place ∈ net.places,
    Quantity.below 0 place.tokens = false ↔ Quantity.atMost place.tokens 0 = true

theorem isSeeded_eq_false_iff {net : Net α} (htokens : net.HasComparableTokens)
    {c : List String} : net.isSeeded c = false ↔ net.IsUnseeded c := by
  simp only [isSeeded, List.any_eq_false, Bool.and_eq_true, List.contains_iff_mem, not_and,
    Bool.not_eq_true, IsUnseeded]
  exact forall₂_congr fun place hplace => imp_congr_right fun _ => htokens place hplace

end Net

/-- A report says exactly what is the case with a net. -/
structure Topology.IsExact {α : Type} [Quantity α] (report : Topology) (net : Net α) : Prop where
  isolatedPlaces : report.isolatedPlaces.Pairwise (· < ·) ∧
    ∀ p, p ∈ report.isolatedPlaces ↔ p ∈ net.placeNames ∧ ∀ a ∈ net.arcs, a.place ≠ p
  isolatedTransitions : report.isolatedTransitions.Pairwise (· < ·) ∧
    ∀ t, t ∈ report.isolatedTransitions ↔
      t ∈ net.transitionNames ∧ ∀ a ∈ net.arcs, a.transition ≠ t
  /-- Some arc leads from the transition, but none leads to it. -/
  inputFreeTransitions : report.inputFreeTransitions.Pairwise (· < ·) ∧
    ∀ t, t ∈ report.inputFreeTransitions ↔ t ∈ net.transitionNames ∧
      (∃ a ∈ net.arcs, a.direction = .output ∧ a.transition = t) ∧
        ∀ a ∈ net.arcs, a.direction = .input → a.transition ≠ t
  sorted : report.unseededCycles.Pairwise (· < ·)
  /-- Components with a cycle and without tokens are listed, each in ascending order. -/
  unseededCycles : ∀ c, c ∈ report.unseededCycles ↔
    c.Pairwise (· < ·) ∧ net.IsComponent c ∧ net.HasCycle c ∧ net.IsUnseeded c
  /-- That is, components of two or more places, or of one that feeds itself. -/
  cyclic : ∀ c, c ∈ report.unseededCycles ↔ c.Pairwise (· < ·) ∧ net.IsComponent c ∧
    (2 ≤ c.length ∨ ∃ p, c = [p] ∧ net.Feeds p p) ∧ net.IsUnseeded c
  disjoint : report.unseededCycles.Pairwise List.Disjoint
  /-- A cycle is in exactly one listed component if all places that are together with its places
  start with nothing or less, and otherwise in none. -/
  cycle : ∀ cycle, net.IsCycle cycle →
    ((∃! c, c ∈ report.unseededCycles ∧ cycle ⊆ c) ↔ ∀ place ∈ net.places,
      (∃ p ∈ cycle, net.Together p place.name) → Quantity.atMost place.tokens 0 = true)
  /-- A cycle meets no other listed component. -/
  apart : ∀ cycle, net.IsCycle cycle → ∀ c ∈ report.unseededCycles,
    cycle ⊆ c ∨ List.Disjoint cycle c

namespace Net

variable {α : Type} [Quantity α] {net : Net α}

theorem pairwise_lt_topology (hplaces : net.placeNames.Nodup)
    (htransitions : net.transitionNames.Nodup) :
    net.topology.isolatedPlaces.Pairwise (· < ·) ∧
      net.topology.isolatedTransitions.Pairwise (· < ·) ∧
        net.topology.inputFreeTransitions.Pairwise (· < ·) :=
  ⟨pairwise_lt_sortNames (hplaces.filter _), pairwise_lt_sortNames (htransitions.filter _),
    pairwise_lt_sortNames (htransitions.filter _)⟩

omit [Quantity α] in
theorem hasArc_eq_false_iff {direction : Direction} {t : String} :
    net.hasArc direction t = false ↔
      ∀ a ∈ net.arcs, a.direction = direction → a.transition ≠ t := by
  simp [hasArc]

theorem mem_isolatedPlaces {p : String} : p ∈ net.topology.isolatedPlaces ↔
    p ∈ net.placeNames ∧ ∀ a ∈ net.arcs, a.place ≠ p := by
  simp [topology, (sortNames_perm _).mem_iff]

theorem mem_isolatedTransitions {t : String} : t ∈ net.topology.isolatedTransitions ↔
    t ∈ net.transitionNames ∧ ∀ a ∈ net.arcs, a.transition ≠ t := by
  simp only [topology, (sortNames_perm _).mem_iff, List.mem_filter, Bool.and_eq_true,
    Bool.not_eq_true', hasArc_eq_false_iff]
  refine and_congr_right fun _ => ⟨?_, fun h => ⟨fun a ha _ => h a ha, fun a ha _ => h a ha⟩⟩
  rintro ⟨hin, hout⟩ a ha
  cases hdirection : a.direction with
  | input => exact hin a ha hdirection
  | output => exact hout a ha hdirection

theorem mem_inputFreeTransitions {t : String} : t ∈ net.topology.inputFreeTransitions ↔
    t ∈ net.transitionNames ∧ (∃ a ∈ net.arcs, a.direction = .output ∧ a.transition = t) ∧
      ∀ a ∈ net.arcs, a.direction = .input → a.transition ≠ t := by
  simp only [topology, (sortNames_perm _).mem_iff, List.mem_filter, Bool.and_eq_true,
    Bool.not_eq_true', hasArc_eq_false_iff]
  simp only [hasArc, List.any_eq_true, Bool.and_eq_true, decide_eq_true_eq, beq_iff_eq]
  exact and_congr_right fun _ => and_comm

section Cycles

variable (hnet : net.IsWellBuilt)

include hnet

omit [Quantity α] in
/-- A component in ascending order is told by one of its places. -/
theorem exists_mem_components_iff {c : List String} (hsorted : c.Pairwise (· < ·)) :
    net.IsComponent c ↔ ∃ c' ∈ net.components, c = sortNames c' := by
  constructor
  · rintro ⟨p, hp, hmem⟩
    obtain ⟨c', hc', hpc'⟩ := exists_mem_components hnet hp
    obtain ⟨hn, hcomponent⟩ := isComponent_of_mem_components hnet hc'
    refine ⟨c', hc', hsorted.eq_of_mem_iff (pairwise_lt_sortNames hn) fun q => ?_⟩
    rw [(sortNames_perm c').mem_iff, hmem, hcomponent.together hpc']
  · rintro ⟨c', hc', rfl⟩
    obtain ⟨p, hp, hmem⟩ := (isComponent_of_mem_components hnet hc').2
    exact ⟨p, hp, fun q => (sortNames_perm c').mem_iff.trans (hmem q)⟩

omit [Quantity α] in
theorem exists_sorted_component {p : String} (hp : p ∈ net.placeNames) :
    ∃ c : List String, c.Pairwise (· < ·) ∧ net.IsComponent c ∧ p ∈ c := by
  obtain ⟨c, hc, hpc⟩ := exists_mem_components hnet hp
  have hsorted := pairwise_lt_sortNames (isComponent_of_mem_components hnet hc).1
  exact ⟨sortNames c, hsorted, (exists_mem_components_iff hnet hsorted).mpr ⟨c, hc, rfl⟩,
    (sortNames_perm c).mem_iff.mpr hpc⟩

/-- The components that are listed, before they are sorted. -/
theorem mem_filter_components_iff (htokens : net.HasComparableTokens) {c : List String} :
    c ∈ net.components.filter (fun c => net.isCyclic c && !net.isSeeded c) ↔
      c ∈ net.components ∧ net.HasCycle c ∧ net.IsUnseeded c := by
  rw [List.mem_filter, Bool.and_eq_true, Bool.not_eq_true', isSeeded_eq_false_iff htokens]
  refine and_congr_right fun hmem => ?_
  obtain ⟨hn, hc⟩ := isComponent_of_mem_components hnet hmem
  rw [isCyclic_iff hc hnet hn]

theorem mem_unseededCycles_iff (htokens : net.HasComparableTokens) {c : List String} :
    c ∈ net.topology.unseededCycles ↔
      c.Pairwise (· < ·) ∧ net.IsComponent c ∧ net.HasCycle c ∧ net.IsUnseeded c := by
  have hcongr : ∀ c, (net.HasCycle (sortNames c) ↔ net.HasCycle c) ∧
      (net.IsUnseeded (sortNames c) ↔ net.IsUnseeded c) := fun c => by
    simp only [HasCycle, IsUnseeded, (sortNames_perm c).mem_iff, and_self]
  rw [topology, (sortNameLists_perm _).mem_iff, List.mem_map]
  simp only [mem_filter_components_iff hnet htokens]
  constructor
  · rintro ⟨c, ⟨hmem, hcycle, hunseeded⟩, rfl⟩
    have hsorted := pairwise_lt_sortNames (isComponent_of_mem_components hnet hmem).1
    exact ⟨hsorted, (exists_mem_components_iff hnet hsorted).mpr ⟨c, hmem, rfl⟩,
      (hcongr c).1.mpr hcycle, (hcongr c).2.mpr hunseeded⟩
  · rintro ⟨hsorted, hcomponent, hcycle, hunseeded⟩
    obtain ⟨c, hmem, rfl⟩ := (exists_mem_components_iff hnet hsorted).mp hcomponent
    exact ⟨c, ⟨hmem, (hcongr c).1.mp hcycle, (hcongr c).2.mp hunseeded⟩, rfl⟩

theorem pairwise_disjoint_unseededCycles :
    net.topology.unseededCycles.Pairwise List.Disjoint := by
  have hfilter := (pairwise_disjoint_components hnet).filter
    fun c => net.isCyclic c && !net.isSeeded c
  have hmap : ((net.components.filter fun c => net.isCyclic c && !net.isSeeded c).map
      sortNames).Pairwise List.Disjoint := by
    refine List.pairwise_map.mpr (hfilter.imp fun {c c'} h => ?_)
    intro q hq hq'
    exact h ((sortNames_perm c).mem_iff.mp hq) ((sortNames_perm c').mem_iff.mp hq')
  exact ((sortNameLists_perm _).pairwise_iff fun {c c'} h => h.symm).mpr hmap

theorem pairwise_lt_unseededCycles (htokens : net.HasComparableTokens) :
    net.topology.unseededCycles.Pairwise (· < ·) := by
  have hne : net.topology.unseededCycles.Pairwise (· ≠ ·) := by
    refine (pairwise_disjoint_unseededCycles hnet).imp_of_mem fun {c c'} hc _ hdisjoint heq => ?_
    obtain ⟨-, hcomponent, -⟩ := (mem_unseededCycles_iff hnet htokens).mp hc
    obtain ⟨q, hq⟩ := List.exists_mem_of_ne_nil c hcomponent.ne_nil
    exact hdisjoint hq (heq ▸ hq)
  exact pairwise_lt_sortNameLists ((sortNameLists_perm _).nodup_iff.mp hne)

omit [Quantity α] hnet in
/-- A cycle is inside of a component or apart from it. -/
theorem IsCycle.subset_or_disjoint {cycle c : List String} (hcycle : net.IsCycle cycle)
    (hc : net.IsComponent c) : cycle ⊆ c ∨ List.Disjoint cycle c := by
  obtain ⟨p, -, -, htogether⟩ := hcycle.together
  by_cases hmeets : ∃ q ∈ cycle, q ∈ c
  · obtain ⟨q, hq, hqc⟩ := hmeets
    exact .inl fun r hr => (hc.together hqc).mpr ((htogether q hq).symm.trans (htogether r hr))
  · exact .inr fun q hq hqc => hmeets ⟨q, hq, hqc⟩

theorem existsUnique_unseededCycle_iff (htokens : net.HasComparableTokens) {cycle : List String}
    (hcycle : net.IsCycle cycle) :
    (∃! c, c ∈ net.topology.unseededCycles ∧ cycle ⊆ c) ↔ ∀ place ∈ net.places,
      (∃ p ∈ cycle, net.Together p place.name) → Quantity.atMost place.tokens 0 = true := by
  obtain ⟨p, hp, hback, htogether⟩ := hcycle.together
  constructor
  · rintro ⟨c, ⟨hmem, hsub⟩, -⟩ place hplace ⟨q, hq, hled⟩
    obtain ⟨-, hcomponent, -, hunseeded⟩ := (mem_unseededCycles_iff hnet htokens).mp hmem
    exact hunseeded place hplace ((hcomponent.together (hsub hq)).mpr hled)
  · intro hrests
    obtain ⟨q, hfirst, -⟩ := Relation.TransGen.head'_iff.mp hback
    obtain ⟨c, hsorted, hcomponent, hpc⟩ :=
      exists_sorted_component hnet (mem_placeNames_of_feeds hnet hfirst).1
    have hmem : ∀ r, r ∈ c ↔ net.Together p r := fun _ => hcomponent.together hpc
    have hunseeded : net.IsUnseeded c := fun place hplace hin =>
      hrests place hplace ⟨p, hp, (hmem place.name).mp hin⟩
    have hlisted := (mem_unseededCycles_iff hnet htokens).mpr
      ⟨hsorted, hcomponent, ⟨p, hpc, hback⟩, hunseeded⟩
    refine ⟨c, ⟨hlisted, fun r hr => (hmem r).mpr (htogether r hr)⟩, ?_⟩
    rintro c' ⟨hmem', hsub'⟩
    obtain ⟨hsorted', hcomponent', -⟩ := (mem_unseededCycles_iff hnet htokens).mp hmem'
    exact hsorted'.eq_of_mem_iff hsorted fun r =>
      (hcomponent'.together (hsub' hp)).trans (hmem r).symm

theorem isExact_topology (htransitions : net.transitionNames.Nodup)
    (htokens : net.HasComparableTokens) : net.topology.IsExact net := by
  obtain ⟨hplaces, hisolated, hinputFree⟩ := pairwise_lt_topology hnet.distinct htransitions
  have hlisted := fun c => mem_unseededCycles_iff hnet htokens (c := c)
  refine ⟨⟨hplaces, fun _ => mem_isolatedPlaces⟩, ⟨hisolated, fun _ => mem_isolatedTransitions⟩,
    ⟨hinputFree, fun _ => mem_inputFreeTransitions⟩, pairwise_lt_unseededCycles hnet htokens,
    hlisted, fun c => ?_, pairwise_disjoint_unseededCycles hnet,
    fun cycle hcycle => existsUnique_unseededCycle_iff hnet htokens hcycle,
    fun cycle hcycle c hc => hcycle.subset_or_disjoint ((hlisted c).mp hc).2.1⟩
  rw [hlisted]
  refine and_congr_right fun hsorted => and_congr_right fun hc => ?_
  rw [hasCycle_iff hc hsorted.nodup]

end Cycles

end Net

/-! ### Any calls -/

/-- What every place starts with is finite. -/
def Net.HasFiniteTokens (net : Net Number) : Prop :=
  ∀ place ∈ net.places, place.tokens.toBinary64.isFinite = true

theorem Net.HasFiniteTokens.hasComparableTokens {net : Net Number} (h : net.HasFiniteTokens) :
    net.HasComparableTokens :=
  fun place hplace => Number.below_zero_eq_false_iff (h place hplace)

namespace NetBuilder

variable {b : NetBuilder}

/-- A place is refused unless what it starts with is finite. -/
theorem isFinite_of_addPlace {net net' : Net Number} {name : String} {tokens : Number}
    {role : Option String} (h : net.addPlace name tokens role = .ok net') :
    net'.places = net.places ++ [⟨name, tokens.toFloat, role⟩] ∧
      tokens.toBinary64.isFinite = true := by
  simp only [Net.addPlace] at h
  split_ifs at h with hname hlarge hfinite
  obtain rfl := Except.ok.inj h
  refine ⟨rfl, ?_⟩
  cases tokens with
  | int n => simpa [Number.isTooLarge, Number.toBinary64] using hlarge
  | float x => simpa [Number.isFinite, Number.toBinary64] using hfinite

/-- Only a call to add a place adds one. -/
theorem places_perform [EntryOrder] {call : BuilderCall} (hcall : ¬∃ name tokens role,
    call = .addPlace name tokens role) : (b.perform call).2.net.places = b.net.places := by
  have hperforms := b.performs call
  generalize b.perform call = outcome at hperforms ⊢
  cases hperforms with
  | adds hadds =>
    cases hadds with
    | place => exact absurd ⟨_, _, _, rfl⟩ hcall
    | transition => rfl
    | arc => rfl
  | keeps hnext => rcases hnext with rfl | rfl <;> rfl

theorem hasFiniteTokens_perform [EntryOrder] (h : b.net.HasFiniteTokens) (call : BuilderCall) :
    (b.perform call).2.net.HasFiniteTokens := by
  by_cases hcall : ∃ name tokens role, call = .addPlace name tokens role
  · obtain ⟨name, tokens, role, rfl⟩ := hcall
    rcases b.build_cases (·.addPlace name tokens role) with ⟨net, hstep, hb⟩ | ⟨e, hb⟩
    · obtain ⟨hplaces, hfinite⟩ := isFinite_of_addPlace hstep
      have hnet : (b.perform (.addPlace name tokens role)).2.net = net := by rw [perform, hb]; rfl
      rw [hnet, Net.HasFiniteTokens, hplaces]
      exact List.forall_mem_append.mpr ⟨h, List.forall_mem_singleton.mpr hfinite⟩
    · rw [perform, hb]
      exact h
  · rw [Net.HasFiniteTokens, places_perform hcall]
    exact h

theorem hasFiniteTokens_run [EntryOrder] (calls : List BuilderCall) :
    ∀ b : NetBuilder, b.net.HasFiniteTokens → (b.run calls).net.HasFiniteTokens := by
  induction calls with
  | nil => exact fun _ h => h
  | cons call rest ih => exact fun b h => ih _ (hasFiniteTokens_perform h call)

/-- **The report on the shape of a net is exact**, whatever calls a net under construction has
had, some of them refused and questions among them: places and transitions without arcs, the
transitions that only produce, and the components of the flow that hold a cycle and start without
tokens, in ascending order. -/
theorem isExact_topology_run [EntryOrder] (calls : List BuilderCall) :
    (({} : NetBuilder).run calls).topology.1.IsExact (({} : NetBuilder).run calls).net := by
  have h := isUpToDate_run isUpToDate_empty calls
  have htokens := hasFiniteTokens_run calls {} fun _ hplace => nomatch hplace
  obtain ⟨hplaces, htransitions, -⟩ := List.nodup_append.mp h.distinct
  rw [h.topology_eq]
  exact Net.isExact_topology ⟨hplaces, h.ends⟩ htransitions htokens.hasComparableTokens

/-- A place that feeds itself and starts empty is a cycle. -/
example : (({} : NetBuilder).run [.addPlace "a" 0 none, .addTransition "t" none,
    .addArc "a" "t" (.int 1), .addArc "t" "a" (.int 2)]).topology.1 =
      { unseededCycles := [["a"]] } := by
  decide +kernel

end NetBuilder

end NoteGraph
