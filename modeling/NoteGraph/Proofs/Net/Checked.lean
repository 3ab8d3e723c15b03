import NoteGraph.Proofs.Net.Building

/-!
# Building a net with every check

A net can also be built from a graph with the steps of a net under construction, each with
its checks: that a name is new, that an arc leads between a place and a transition, that its
weight is positive. None of these checks ever fails for a graph whose nodes have different
identifiers: only a weight or a seed that is out of reach keeps its net from being built.
-/

namespace NoteGraph

namespace Net

variable {α : Type} {net : Net α} {name : String}

theorem hasPlace_iff : net.hasPlace name = true ↔ name ∈ net.placeNames := by
  simp [hasPlace, placeNames]

theorem hasTransition_iff : net.hasTransition name = true ↔ name ∈ net.transitionNames := by
  simp [hasTransition, transitionNames]

theorem kindOf?_place (h : name ∈ net.placeNames) : net.kindOf? name = some .place := by
  rw [kindOf?, if_pos (hasPlace_iff.mpr h)]

theorem kindOf?_transition (hplace : name ∉ net.placeNames) (h : name ∈ net.transitionNames) :
    net.kindOf? name = some .transition := by
  rw [kindOf?, if_neg (mt hasPlace_iff.mp hplace), if_pos (hasTransition_iff.mpr h)]

theorem kindOf?_eq_none (hplace : name ∉ net.placeNames) (h : name ∉ net.transitionNames) :
    net.kindOf? name = none := by
  rw [kindOf?, if_neg (mt hasPlace_iff.mp hplace), if_neg (mt hasTransition_iff.mp h)]

end Net

namespace Graph

/-- The net with the arc of an edge added: from the place to the transition for a relation to
what was before, and the other way round for one to what comes after. -/
def addEdge (net : Net Number) (e : Edge) : Except NetError (Net Number) :=
  if e.name == priorState then net.addArc e.targetId e.sourceId e.weight
  else net.addArc e.sourceId e.targetId e.weight

/-- A net with the transitions and the arcs of a graph added. -/
def addParts (g : Graph) (net : Net Number) : Except NetError (Net Number) :=
  g.transitionNodes.foldlM (fun net n => net.addTransition n.id (some n.role)) net >>=
    fun net => g.arcEdges.foldlM addEdge net

/-- The net of a graph, built step by step: its weights are read, then its places, its
transitions and its arcs are added. -/
def buildNet (g : Graph) (accounting : Bool) (tokens : Number) :
    Except NetError (Net Number) :=
  if g.arcEdges.any (·.weight.isTooLarge) then .error (.outOfRange .tooLarge)
  else
    (g.placeIds accounting).foldlM (fun net id =>
      net.addPlace id (g.seed accounting tokens id).1 ((g.node? id).map (·.role))) {} >>=
      g.addParts

variable {g : Graph} {accounting : Bool} {tokens : Number}

/-! ### Places -/

theorem foldlM_addPlace (ids : List String) : ∀ net : Net Number,
    ids.foldlM (fun net id =>
        net.addPlace id (g.seed accounting tokens id).1 ((g.node? id).map (·.role))) net =
      (g.addPlaces accounting tokens net ids).1 := by
  induction ids with
  | nil => exact fun _ => rfl
  | cons id rest ih =>
    intro net
    rw [List.foldlM_cons]
    simp only [addPlaces]
    cases net.addPlace id (g.seed accounting tokens id).1 ((g.node? id).map (·.role)) with
    | error e => rfl
    | ok next => exact ih next

/-- No place is a transition. -/
theorem isTransition_of_mem_placeIds {id : String} (h : id ∈ g.placeIds accounting) :
    g.isTransition id = false := by
  rw [mem_placeIds] at h
  rcases h with htarget | ⟨-, n, -, rfl, haccount⟩
  · obtain ⟨e, he, rfl⟩ := List.mem_map.mp htarget
    simpa using (Bool.and_eq_true_iff.mp (List.mem_filter.mp he).2).1
  · simpa using (Bool.and_eq_true_iff.mp haccount).2

/-! ### Transitions -/

theorem foldlM_addTransition (nodes : List Node) : ∀ net : Net Number,
    (nodes.map (·.id)).Nodup →
    (∀ n ∈ nodes, n.id ∉ net.placeNames ∧ n.id ∉ net.transitionNames) →
      nodes.foldlM (fun net n => net.addTransition n.id (some n.role)) net =
        .ok { net with
          transitions := net.transitions ++ nodes.map fun n => ⟨n.id, some n.role⟩ } := by
  induction nodes with
  | nil =>
    intro net _ _
    simp [pure, Except.pure]
  | cons n rest ih =>
    intro net hnodup hnew
    obtain ⟨hn, hrest⟩ := List.nodup_cons.mp hnodup
    obtain ⟨hplace, htransition⟩ := hnew n List.mem_cons_self
    have hadd : net.addTransition n.id (some n.role) =
        .ok { net with transitions := net.transitions ++ [⟨n.id, some n.role⟩] } := by
      simp [Net.addTransition, Net.kindOf?_eq_none hplace htransition]
    rw [List.foldlM_cons, hadd]
    refine (ih _ hrest fun m hm => ?_).trans ?_
    · obtain ⟨hplace', htransition'⟩ := hnew m (List.mem_cons_of_mem _ hm)
      refine ⟨hplace', ?_⟩
      have hne : m.id ≠ n.id := fun heq => hn (List.mem_map.mpr ⟨m, hm, heq⟩)
      simpa [Net.transitionNames, hne] using htransition'
    · simp

/-! ### Arcs -/

theorem addEdge_eq {net : Net Number} {e : Edge} (he : e ∈ g.arcEdges)
    (hweight : e.weight.isTooLarge = false) (htarget : e.targetId ∈ net.placeNames)
    (hsource : e.sourceId ∈ net.transitionNames) (hsource' : e.sourceId ∉ net.placeNames) :
    addEdge net e = .ok { net with arcs := net.arcs ++ [arcOf e] } := by
  obtain ⟨hstate, harc⟩ := List.mem_filter.mp he
  obtain ⟨hrelation, -⟩ := Bool.and_eq_true_iff.mp (List.mem_filter.mp hstate).2
  obtain ⟨-, hpositive⟩ := Bool.and_eq_true_iff.mp harc
  obtain ⟨d, hd⟩ := Option.isSome_iff_exists.mp hrelation
  have hname := (Direction.ofRelation?_eq_some_iff e.name d).mp hd
  have hne : postState ≠ priorState := by decide
  cases d with
  | input =>
    have hprior : (e.name == priorState) = true := beq_iff_eq.mpr hname
    rw [addEdge, if_pos hprior]
    simp [Net.addArc, Net.arcBetween, Net.kindOf?_place htarget,
      Net.kindOf?_transition hsource' hsource, hweight, hpositive, arcOf, hd, bind, Except.bind]
  | output =>
    have hnot : ¬(e.name == priorState) = true := by
      rw [beq_iff_eq, hname]
      exact hne
    rw [addEdge, if_neg hnot]
    simp [Net.addArc, Net.arcBetween, Net.kindOf?_place htarget,
      Net.kindOf?_transition hsource' hsource, hweight, hpositive, arcOf, hd, bind, Except.bind]

theorem foldlM_addEdge (edges : List Edge) : ∀ net : Net Number, (∀ e ∈ edges, e ∈ g.arcEdges) →
    (∀ e ∈ edges, e.weight.isTooLarge = false) →
    (∀ e ∈ edges, e.targetId ∈ net.placeNames ∧ e.sourceId ∈ net.transitionNames ∧
      e.sourceId ∉ net.placeNames) →
      edges.foldlM addEdge net = .ok { net with arcs := net.arcs ++ edges.map arcOf } := by
  induction edges with
  | nil =>
    intro net _ _ _
    simp [pure, Except.pure]
  | cons e rest ih =>
    intro net hedges hweights hends
    obtain ⟨he, hedges⟩ := List.forall_mem_cons.mp hedges
    obtain ⟨hw, hweights⟩ := List.forall_mem_cons.mp hweights
    obtain ⟨⟨htarget, hsource, hsource'⟩, hends⟩ := List.forall_mem_cons.mp hends
    rw [List.foldlM_cons, addEdge_eq he hw htarget hsource hsource']
    refine (ih { net with arcs := net.arcs ++ [arcOf e] } hedges hweights hends).trans ?_
    simp

/-! ### The net -/

theorem isTransition_iff {id : String} :
    g.isTransition id = true ↔ id ∈ g.transitionNodes.map (·.id) := by
  simp [isTransition]

/-- An arc leads between a transition and a place, and no name is both. -/
theorem ends_of_mem_arcEdges {e : Edge} (he : e ∈ g.arcEdges) (accounting : Bool) :
    e.targetId ∈ g.placeIds accounting ∧ e.sourceId ∈ g.transitionNodes.map (·.id) ∧
      e.sourceId ∉ g.placeIds accounting := by
  have hstate := (List.mem_filter.mp (List.mem_filter.mp he).1).2
  have hsource : g.isTransition e.sourceId = true := (Bool.and_eq_true_iff.mp hstate).2
  refine ⟨mem_placeIds.mpr (Or.inl (List.mem_map_of_mem he)), isTransition_iff.mp hsource, ?_⟩
  intro hplace
  rw [isTransition_of_mem_placeIds hplace] at hsource
  cases hsource

/-- The transitions and arcs of a graph can be added to its places. -/
theorem addParts_eq (hn : (g.nodes.map (·.id)).Nodup)
    (hweights : ∀ e ∈ g.arcEdges, e.weight.isTooLarge = false) {net : Net Number}
    (hplaces : net.placeNames = g.placeIds accounting) (hempty : net.transitions = []) :
    g.addParts net = .ok { net with
      transitions := g.transitionNodes.map fun n => ⟨n.id, some n.role⟩
      arcs := net.arcs ++ g.arcEdges.map arcOf } := by
  have hnew : ∀ n ∈ g.transitionNodes,
      n.id ∉ net.placeNames ∧ n.id ∉ net.transitionNames := by
    intro n hmem
    have htransition := isTransition_iff.mpr (List.mem_map_of_mem (f := (·.id)) hmem)
    rw [Net.transitionNames, hempty]
    refine ⟨fun hplace => ?_, List.not_mem_nil⟩
    rw [isTransition_of_mem_placeIds (hplaces ▸ hplace)] at htransition
    cases htransition
  have htransitions := foldlM_addTransition g.transitionNodes net
    (hn.sublist (List.filter_sublist.map _)) hnew
  rw [hempty, List.nil_append] at htransitions
  let next : Net Number :=
    { net with transitions := g.transitionNodes.map fun n => ⟨n.id, some n.role⟩ }
  have hends : ∀ e ∈ g.arcEdges, e.targetId ∈ next.placeNames ∧
      e.sourceId ∈ next.transitionNames ∧ e.sourceId ∉ next.placeNames := by
    intro e he
    have hnextPlaces : next.placeNames = g.placeIds accounting := hplaces
    have hnextTransitions : next.transitionNames = g.transitionNodes.map (·.id) := by
      simp [next, Net.transitionNames, Function.comp_def]
    rw [hnextPlaces, hnextTransitions]
    exact ends_of_mem_arcEdges he accounting
  rw [addParts, htransitions]
  exact foldlM_addEdge g.arcEdges next (fun _ he => he) hweights hends

/-- The checks of the steps change nothing. -/
theorem buildNet_eq (hn : (g.nodes.map (·.id)).Nodup) (accounting : Bool) (tokens : Number) :
    g.buildNet accounting tokens = (g.toNet accounting tokens).1 := by
  by_cases hreach : (g.arcEdges.any (·.weight.isTooLarge)) = true
  · rw [buildNet, toNet, if_pos hreach, if_pos hreach]
  · have hweights : ∀ e ∈ g.arcEdges, e.weight.isTooLarge = false := by
      simpa using hreach
    have hplaceIds := nodup_placeIds hn accounting
    rw [buildNet, if_neg hreach, foldlM_addPlace, toNet_eq hplaceIds hweights,
      addPlaces_placeIds hplaceIds]
    cases g.firstRefusal? accounting tokens with
    | some e => rfl
    | none =>
      refine @addParts_eq g accounting hn hweights _ ?_ rfl
      simp [Net.placeNames, Function.comp_def, placeOf]

end Graph

end NoteGraph
