import NoteGraph.Proofs.Net.OfGraph

/-!
# Building the net of a graph

The places of the net of a graph are the ends of its arcs and, in an accounting net, its
accounts, each once. So the net can be built whenever its weights and what its places
start with are in reach of floating-point numbers. In a token net every place has an arc,
and those from which something is taken are seeded.
-/

namespace NoteGraph

/-- The relation that makes the arcs of a direction. -/
def Direction.relation : Direction → String
  | .input => priorState
  | .output => postState

theorem Direction.ofRelation?_eq_some_iff (name : String) (d : Direction) :
    ofRelation? name = some d ↔ name = d.relation := by
  have hne : priorState ≠ postState := by decide
  unfold ofRelation? relation
  by_cases hprior : name = priorState
  · subst hprior
    cases d <;> simp [hne]
  · by_cases hpost : name = postState
    · subst hpost
      cases d <;> simp [hne.symm]
    · cases d <;> simp [hprior, hpost]

/-- Why a place cannot hold a number at the start. -/
def Number.refusal? (n : Number) : Option NetError :=
  if n.isTooLarge then some (.outOfRange .tooLarge)
  else if !n.isFinite then some (.tokensNotFinite n)
  else none

theorem Number.refusal?_eq_none_iff {n : Number} :
    n.refusal? = none ↔ n.toBinary64.isFinite = true := by
  cases n with
  | int k => simp [refusal?, isTooLarge, isFinite, toBinary64]
  | float x => simp [refusal?, isTooLarge, isFinite, toBinary64]

namespace Graph

variable {g : Graph} {accounting : Bool} {tokens : Number} {net : Net Number}

/-! ### The places -/

theorem mem_placeIds {id : String} : id ∈ g.placeIds accounting ↔
    id ∈ g.arcEdges.map (·.targetId) ∨
      accounting = true ∧ ∃ n ∈ g.nodes, n.id = id ∧ g.isAccountPlace n = true := by
  simp only [placeIds, List.mem_append, (sortNames_perm _).mem_iff, List.mem_eraseDups,
    List.mem_filter, List.mem_map, Bool.or_eq_true, Bool.and_eq_true, Bool.not_eq_true',
    List.contains_eq_mem, decide_eq_true_eq, decide_eq_false_iff_not]
  constructor
  · rintro (⟨n, ⟨hn, htarget | haccount⟩, rfl⟩ | ⟨htarget, -⟩)
    · exact Or.inl htarget
    · exact Or.inr ⟨haccount.1, n, hn, rfl, haccount.2⟩
    · exact Or.inl htarget
  · rintro (htarget | ⟨haccounting, n, hn, rfl, haccount⟩)
    · by_cases hnode : ∃ n ∈ g.nodes, n.id = id
      · obtain ⟨n, hn, rfl⟩ := hnode
        exact Or.inl ⟨n, ⟨hn, Or.inl htarget⟩, rfl⟩
      · refine Or.inr ⟨htarget, ?_⟩
        rintro ⟨n, ⟨hn, -⟩, rfl⟩
        exact hnode ⟨n, hn, rfl⟩
    · exact Or.inl ⟨n, ⟨hn, Or.inr ⟨haccounting, haccount⟩⟩, rfl⟩

theorem nodup_placeIds (hn : (g.nodes.map (·.id)).Nodup) (accounting : Bool) :
    (g.placeIds accounting).Nodup := by
  refine List.Nodup.append ?_ ((sortNames_perm _).nodup_iff.mpr (nodup_eraseDups _)) ?_
  · exact hn.sublist (List.filter_sublist.map _)
  · intro id hid hother
    rw [(sortNames_perm _).mem_iff, List.mem_eraseDups, List.mem_filter, Bool.not_eq_true',
      List.contains_eq_mem, decide_eq_false_iff_not] at hother
    exact hother.2 hid

/-! ### Nets that can be built -/

theorem addPlace_eq {net : Net Number} {name : String} (hname : name ∉ net.placeNames)
    (htransitions : net.transitions = []) (tokens : Number) (role : Option String) :
    net.addPlace name tokens role = match tokens.refusal? with
      | some e => .error e
      | none => .ok { net with places := net.places ++ [⟨name, tokens.toFloat, role⟩] } := by
  have hplace : net.hasPlace name = false := by
    simpa [Net.hasPlace, Net.placeNames] using hname
  have hkind : net.kindOf? name = none := by
    simp [Net.kindOf?, hplace, Net.hasTransition, htransitions]
  unfold Net.addPlace Number.refusal?
  rw [hkind]
  split_ifs <;> simp_all

/-- Places with names of their own can be added up to the first that cannot hold what it
starts with. -/
theorem addPlaces_eq (ids : List String) : ∀ {net : Net Number}, net.transitions = [] →
    (net.placeNames ++ ids).Nodup → (g.addPlaces accounting tokens net ids).1 =
      match ids.findSome? fun id => (g.seed accounting tokens id).1.refusal? with
      | some e => .error e
      | none => .ok { net with places := net.places ++ ids.map (g.placeOf accounting tokens) } := by
  induction ids with
  | nil =>
    intro net _ _
    simp [addPlaces]
  | cons id rest ih =>
    intro net htransitions hn
    have hname : id ∉ net.placeNames := fun hmem =>
      List.disjoint_of_nodup_append hn hmem List.mem_cons_self
    have hadd := addPlace_eq hname htransitions (g.seed accounting tokens id).1
      ((g.node? id).map (·.role))
    simp only [addPlaces, hadd, List.findSome?_cons]
    cases (g.seed accounting tokens id).1.refusal? with
    | some e => rfl
    | none =>
      have hnext : (net.places ++ [g.placeOf accounting tokens id]).map (·.name) =
          net.placeNames ++ [id] := List.map_append
      have hrest := @ih { net with places := net.places ++ [g.placeOf accounting tokens id] }
        htransitions (by rw [Net.placeNames, hnext, List.append_assoc]; exact hn)
      rw [List.append_assoc] at hrest
      exact hrest

/-- The first refusal of a place to hold what it starts with. -/
def firstRefusal? (g : Graph) (accounting : Bool) (tokens : Number) : Option NetError :=
  (g.placeIds accounting).findSome? fun id => (g.seed accounting tokens id).1.refusal?

theorem addPlaces_placeIds (hn : (g.placeIds accounting).Nodup) (tokens : Number) :
    (g.addPlaces accounting tokens {} (g.placeIds accounting)).1 =
      match g.firstRefusal? accounting tokens with
      | some e => .error e
      | none => .ok { places := (g.placeIds accounting).map (g.placeOf accounting tokens) } :=
  addPlaces_eq (g.placeIds accounting) rfl hn

/-- The net of a graph whose weights are in reach has all parts of the graph, unless one of
its places cannot hold what it starts with. -/
theorem toNet_eq (hn : (g.placeIds accounting).Nodup)
    (hweights : ∀ e ∈ g.arcEdges, e.weight.isTooLarge = false) (tokens : Number) :
    (g.toNet accounting tokens).1 =
      match g.firstRefusal? accounting tokens with
      | some e => .error e
      | none => .ok
        { places := (g.placeIds accounting).map (g.placeOf accounting tokens)
          transitions := g.transitionNodes.map fun n => ⟨n.id, some n.role⟩
          arcs := g.arcEdges.map arcOf } := by
  have hreach : (g.arcEdges.any (·.weight.isTooLarge)) = false := by
    rw [List.any_eq_false]
    exact fun e he => Bool.not_eq_true _ ▸ hweights e he
  simp only [toNet, hreach, Bool.false_eq_true, if_false, addPlaces_placeIds hn]
  cases g.firstRefusal? accounting tokens with
  | some e => rfl
  | none => rfl

/-- A graph whose weights are in reach has a net if what its places start with is finite. -/
theorem exists_toNet (hn : (g.nodes.map (·.id)).Nodup)
    (hweights : ∀ e ∈ g.arcEdges, e.weight.isTooLarge = false)
    (hseed : ∀ id, (g.seed accounting tokens id).1.toBinary64.isFinite = true) :
    ∃ net, (g.toNet accounting tokens).1 = .ok net := by
  have hnone : g.firstRefusal? accounting tokens = none := by
    rw [firstRefusal?, List.findSome?_eq_none_iff]
    exact fun id _ => Number.refusal?_eq_none_iff.mpr (hseed id)
  rw [toNet_eq (nodup_placeIds hn accounting) hweights, hnone]
  exact ⟨_, rfl⟩

/-! ### Token nets -/

theorem seed_tokens (g : Graph) (tokens : Number) (id : String) :
    (g.seed false tokens id).1 =
      if ∃ e ∈ g.arcEdges, e.name = priorState ∧ e.targetId = id then tokens else .float 0 := by
  unfold seed
  rw [if_neg Bool.false_ne_true]
  have hinput : (g.arcEdges.any fun e => e.name == priorState && e.targetId == id) = true ↔
      ∃ e ∈ g.arcEdges, e.name = priorState ∧ e.targetId = id := by
    simp
  by_cases hseeded : ∃ e ∈ g.arcEdges, e.name = priorState ∧ e.targetId = id
  · rw [if_pos (hinput.mpr hseeded), if_pos hseeded]
  · rw [if_neg (mt hinput.mp hseeded), if_neg hseeded]

namespace IsNetOf

theorem mem_transitionNames (h : g.IsNetOf accounting tokens net) {id : String} :
    id ∈ net.transitionNames ↔ g.isTransition id = true := by
  rw [h.transitionNames_eq, isTransition, List.any_eq_true, List.mem_map]
  simp

/-- Arcs lead between transitions and places. -/
theorem ends_of_mem_arcs (h : g.IsNetOf accounting tokens net) {a : Arc Number}
    (ha : a ∈ net.arcs) :
    a.transition ∈ net.transitionNames ∧ a.place ∈ net.placeNames ∧
      a.place ∉ net.transitionNames := by
  rw [h.arcs] at ha
  obtain ⟨e, he, rfl⟩ := List.mem_map.mp ha
  obtain ⟨hstate, harc⟩ := List.mem_filter.mp he
  obtain ⟨-, hsource⟩ := Bool.and_eq_true_iff.mp (List.mem_filter.mp hstate).2
  obtain ⟨htarget, -⟩ := Bool.and_eq_true_iff.mp harc
  rw [h.mem_transitionNames, h.mem_transitionNames, h.placeNames_eq, mem_placeIds]
  exact ⟨hsource, Or.inl (List.mem_map_of_mem he), by simpa [arcOf] using htarget⟩

/-- Every place of a token net has an arc. -/
theorem exists_arc (h : g.IsNetOf false tokens net) {place : String}
    (hplace : place ∈ net.placeNames) : ∃ a ∈ net.arcs, a.place = place := by
  rw [h.placeNames_eq, mem_placeIds] at hplace
  obtain ⟨e, he, rfl⟩ := List.mem_map.mp (hplace.resolve_right fun hacc => nomatch hacc.1)
  rw [h.arcs]
  exact ⟨arcOf e, List.mem_map_of_mem he, rfl⟩

/-- The places of a token net from which something is taken are seeded. -/
theorem tokens_eq (h : g.IsNetOf false tokens net) {place : Place Number}
    (hplace : place ∈ net.places) : place.tokens =
      if ∃ a ∈ net.arcs, a.direction = .input ∧ a.place = place.name then tokens.toFloat
      else .float 0 := by
  rw [h.places] at hplace
  obtain ⟨id, -, rfl⟩ := List.mem_map.mp hplace
  have hinput : (∃ e ∈ g.arcEdges, e.name = priorState ∧ e.targetId = id) ↔
      ∃ a ∈ net.arcs, a.direction = .input ∧ a.place = id := by
    simp only [h.arcs, List.mem_map, exists_exists_and_eq_and]
    refine exists_congr fun e => and_congr_right fun he => and_congr_left' ?_
    have hstate := (List.mem_filter.mp (List.mem_filter.mp he).1).2
    obtain ⟨d, hd⟩ := Option.isSome_iff_exists.mp (Bool.and_eq_true_iff.mp hstate).1
    have hname : e.name = priorState ↔ d = .input := by
      have hinput := Direction.ofRelation?_eq_some_iff e.name .input
      rw [hd, Option.some.injEq] at hinput
      exact hinput.symm
    rw [arcOf, hd, hname]
    rfl
  simp only [placeOf, seed_tokens, hinput]
  split_ifs
  · rfl
  · rfl

end IsNetOf

end Graph

end NoteGraph
