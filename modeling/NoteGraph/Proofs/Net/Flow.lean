import Mathlib.Data.List.Chain
import NoteGraph.Proofs.Keyed
import NoteGraph.Proofs.Net.SameShape
import NoteGraph.Proofs.Search

/-!
# The flow between places

One place feeds another if some transition takes from the one and puts into the other. The flow
from a place reaches the places that it feeds in any number of steps, and places that lead to one
another are together. The components of a net are its places put together in this way: each place
is in one of them, and a component holds a cycle exactly if it has two places or a place that
feeds itself.
-/

namespace NoteGraph

namespace Net

variable {α : Type} (net : Net α)

/-- Some transition takes from the one place and puts into the other. -/
def Feeds (p q : String) : Prop := ∃ t, net.IsLinked .input p t ∧ net.IsLinked .output q t

/-- Whether a place is reached from another by any number of steps. -/
def Leads : String → String → Prop := Relation.ReflTransGen net.Feeds

/-- Two places that lead to each other, or one place twice. -/
def Together (p q : String) : Prop := net.Leads p q ∧ net.Leads q p

/-- The places of a net have different names, and its arcs lead between its places and its
transitions. -/
structure IsWellBuilt : Prop where
  distinct : net.placeNames.Nodup
  ends : ∀ a ∈ net.arcs, a.place ∈ net.placeNames ∧ a.transition ∈ net.transitionNames

variable {net}

namespace Together

variable {p q r : String}

theorem refl (net : Net α) (p : String) : net.Together p p := ⟨.refl, .refl⟩

theorem symm (h : net.Together p q) : net.Together q p := ⟨h.2, h.1⟩

theorem trans (h : net.Together p q) (h' : net.Together q r) : net.Together p r :=
  ⟨Relation.ReflTransGen.trans h.1 h'.1, Relation.ReflTransGen.trans h'.2 h.2⟩

end Together

/-! ### The search -/

section Search

variable {p q : String} (hnet : net.IsWellBuilt)

include hnet

theorem mem_placeNames_of_isLinked {direction : Direction} {t : String}
    (h : net.IsLinked direction p t) : p ∈ net.placeNames := by
  obtain ⟨a, ha, -, rfl, -⟩ := h
  exact (hnet.ends a ha).1

theorem mem_placeNames_of_feeds (h : net.Feeds p q) :
    p ∈ net.placeNames ∧ q ∈ net.placeNames := by
  obtain ⟨t, hin, hout⟩ := h
  exact ⟨mem_placeNames_of_isLinked hnet hin, mem_placeNames_of_isLinked hnet hout⟩

theorem mem_placeNames_of_leads (hp : p ∈ net.placeNames) (h : net.Leads p q) :
    q ∈ net.placeNames := by
  cases h with
  | refl => exact hp
  | tail _ hlast => exact (mem_placeNames_of_feeds hnet hlast).2

theorem mem_flowsTo_iff : q ∈ net.flowsTo p ↔ net.Feeds p q := by
  rw [mem_flowsTo]
  constructor
  · rintro ⟨-, t, hout, hin⟩
    exact ⟨t, hin, hout⟩
  · rintro ⟨t, hin, hout⟩
    exact ⟨mem_placeNames_of_isLinked hnet hout, t, hout, hin⟩

theorem finds_flow :
    Finds (fun seen place => (net.flowsTo place).filter fun p => !seen.contains p) net.Feeds where
  mem_iff := by simp [List.mem_filter, mem_flowsTo_iff hnet]
  nodup _ _ := (hnet.distinct.filter _).filter _

omit hnet in
theorem flowFrom_eq (fuel : ℕ) : ∀ seen queue : List String, net.flowFrom fuel seen queue =
    searchFrom (fun seen place => (net.flowsTo place).filter fun p => !seen.contains p)
      fuel seen queue := by
  induction fuel with
  | zero => exact fun _ _ => rfl
  | succ fuel ih =>
    intro seen queue
    cases queue with
    | nil => rfl
    | cons first queue => exact ih _ _

theorem mem_reachedFrom_iff (hp : p ∈ net.placeNames) : q ∈ net.reachedFrom p ↔ net.Leads p q := by
  have hfuel : (insert p net.placeNames.toFinset).card ≤ net.places.length := by
    rw [Finset.insert_eq_of_mem (List.mem_toFinset.mpr hp)]
    exact net.placeNames.toFinset_card_le.trans_eq (List.length_map _)
  rw [reachedFrom, flowFrom_eq]
  exact (finds_flow hnet).mem_searchFrom_iff
    (fun _ _ h => List.mem_toFinset.mpr (mem_placeNames_of_feeds hnet h).2) hfuel

theorem nodup_reachedFrom (p : String) : (net.reachedFrom p).Nodup := by
  rw [reachedFrom, flowFrom_eq]
  exact (finds_flow hnet).nodup_searchFrom _ _ _ (List.nodup_singleton p)

end Search

/-! ### Groups -/

section Groups

variable {reach : List (String × List String)}

/-- The places that are in a group with a place. -/
def groupOf (reach : List (String × List String)) (place : String) : List String :=
  ((reach.lookup place).getD []).filter fun other =>
    ((reach.lookup other).getD []).contains place

theorem exists_of_mem_groupPlaces {group : List String} (places : List String) :
    ∀ grouped, group ∈ groupPlaces reach grouped places →
      ∃ p ∈ places, p ∉ grouped ∧ group = groupOf reach p := by
  induction places with
  | nil => exact fun _ h => nomatch h
  | cons place rest ih =>
    intro grouped h
    rw [groupPlaces] at h
    by_cases hgrouped : place ∈ grouped
    · rw [if_pos (by simpa using hgrouped)] at h
      obtain ⟨p, hp, hnew, heq⟩ := ih grouped h
      exact ⟨p, List.mem_cons_of_mem _ hp, hnew, heq⟩
    · rw [if_neg (by simpa using hgrouped)] at h
      rcases List.mem_cons.mp h with rfl | h
      · exact ⟨place, List.mem_cons_self, hgrouped, rfl⟩
      · obtain ⟨p, hp, hnew, heq⟩ := ih _ h
        exact ⟨p, List.mem_cons_of_mem _ hp, fun hmem => hnew (List.mem_append_left _ hmem), heq⟩

/-- Every place comes into a group with itself, unless it is in one already. -/
theorem exists_mem_groupPlaces {p : String} (places : List String)
    (hself : ∀ p ∈ places, p ∈ groupOf reach p) (hp : p ∈ places) :
    ∀ grouped, p ∈ grouped ∨ ∃ group ∈ groupPlaces reach grouped places, p ∈ group := by
  induction places with
  | nil => cases hp
  | cons place rest ih =>
    obtain ⟨hplace, hrest⟩ := List.forall_mem_cons.mp hself
    intro grouped
    rw [groupPlaces]
    by_cases hgrouped : place ∈ grouped
    · rw [if_pos (by simpa using hgrouped)]
      rcases List.mem_cons.mp hp with rfl | hp
      · exact .inl hgrouped
      · exact ih hrest hp grouped
    · rw [if_neg (by simpa using hgrouped)]
      rcases List.mem_cons.mp hp with rfl | hp
      · exact .inr ⟨_, List.mem_cons_self, hplace⟩
      · rcases ih hrest hp (grouped ++ groupOf reach place) with hmem | ⟨group, hgroup, hmem⟩
        · exact (List.mem_append.mp hmem).imp id fun hmem => ⟨_, List.mem_cons_self, hmem⟩
        · exact .inr ⟨group, List.mem_cons_of_mem _ hgroup, hmem⟩

/-- No two groups share a place, if places with a group in common are in one group. -/
theorem pairwise_disjoint_groupPlaces (places : List String)
    (hshare : ∀ p q other, other ∈ groupOf reach p → other ∈ groupOf reach q →
      q ∈ groupOf reach p) :
    ∀ grouped, (groupPlaces reach grouped places).Pairwise List.Disjoint := by
  induction places with
  | nil => exact fun _ => List.Pairwise.nil
  | cons place rest ih =>
    intro grouped
    rw [groupPlaces]
    split_ifs
    · exact ih grouped
    · refine List.pairwise_cons.mpr ⟨fun group hgroup other hplace hother => ?_, ih _⟩
      obtain ⟨q, -, hnew, rfl⟩ := exists_of_mem_groupPlaces rest _ hgroup
      exact hnew (List.mem_append_right _ (hshare place q other hplace hother))

end Groups

/-! ### Components -/

/-- Some places are those that are together with one of them. -/
def IsComponent (net : Net α) (c : List String) : Prop :=
  ∃ p ∈ net.placeNames, ∀ q, q ∈ c ↔ net.Together p q

section Components

variable {c : List String} (hnet : net.IsWellBuilt)

include hnet

theorem mem_groupOf_iff {p q : String} :
    q ∈ groupOf (net.placeNames.map fun p => (p, net.reachedFrom p)) p ↔
      p ∈ net.placeNames ∧ net.Together p q := by
  have hnames : (net.placeNames.map fun p => (p, net.reachedFrom p)).map (·.1) =
      net.placeNames := by simp [Function.comp_def]
  have hlookup : ∀ p ∈ net.placeNames,
      (net.placeNames.map fun p => (p, net.reachedFrom p)).lookup p = some (net.reachedFrom p) :=
    fun p hp => Keyed.lookup_eq_some_of_mem (by rw [hnames]; exact hnet.distinct)
      (List.mem_map.mpr ⟨p, hp, rfl⟩)
  rw [groupOf, List.mem_filter]
  by_cases hp : p ∈ net.placeNames
  · rw [hlookup p hp, Option.getD_some, mem_reachedFrom_iff hnet hp, and_iff_right hp]
    refine and_congr_right fun hleads => ?_
    have hq := mem_placeNames_of_leads hnet hp hleads
    rw [hlookup q hq, Option.getD_some, List.contains_iff_mem, mem_reachedFrom_iff hnet hq]
  · have hnone : (net.placeNames.map fun p => (p, net.reachedFrom p)).lookup p = none :=
      Keyed.lookup_eq_none_of_notMem (by rwa [hnames])
    simp [hnone, hp]

theorem isComponent_of_mem_components (hc : c ∈ net.components) :
    c.Nodup ∧ net.IsComponent c := by
  obtain ⟨p, hp, -, rfl⟩ := exists_of_mem_groupPlaces _ _ hc
  refine ⟨?_, p, hp, fun q => (mem_groupOf_iff hnet).trans (and_iff_right hp)⟩
  refine List.Nodup.filter _ ?_
  cases hlookup : (net.placeNames.map fun p => (p, net.reachedFrom p)).lookup p with
  | none => exact List.nodup_nil
  | some reached =>
    obtain ⟨q, -, heq⟩ := List.mem_map.mp (Keyed.mem_of_lookup_eq_some hlookup)
    rw [Option.getD_some, ← (Prod.mk.inj heq).2]
    exact nodup_reachedFrom hnet q

/-- Every place is in a component. -/
theorem exists_mem_components {p : String} (hp : p ∈ net.placeNames) :
    ∃ c ∈ net.components, p ∈ c :=
  (exists_mem_groupPlaces _ (fun q hq => (mem_groupOf_iff hnet).mpr ⟨hq, .refl net q⟩) hp
    []).resolve_left List.not_mem_nil

theorem pairwise_disjoint_components : net.components.Pairwise List.Disjoint := by
  refine pairwise_disjoint_groupPlaces _ (fun p q other hp hq => ?_) []
  rw [mem_groupOf_iff hnet] at hp hq ⊢
  exact ⟨hp.1, hp.2.trans hq.2.symm⟩

end Components

/-! ### Cycles -/

/-- Some way through the flow leads from a place of a component back to it. -/
def HasCycle (net : Net α) (c : List String) : Prop := ∃ p ∈ c, Relation.TransGen net.Feeds p p

section Cycles

variable {c : List String} (hc : net.IsComponent c)

include hc

theorem IsComponent.together {p q : String} (hp : p ∈ c) : q ∈ c ↔ net.Together p q := by
  obtain ⟨r, -, hmem⟩ := hc
  have hr := (hmem p).mp hp
  exact ⟨fun hq => hr.symm.trans ((hmem q).mp hq), fun hq => (hmem q).mpr (hr.trans hq)⟩

theorem IsComponent.ne_nil : c ≠ [] := by
  obtain ⟨p, -, hmem⟩ := hc
  exact List.ne_nil_of_mem ((hmem p).mpr (.refl net p))

/-- A component with a cycle has two places or one that feeds itself. -/
theorem hasCycle_iff (hn : c.Nodup) :
    net.HasCycle c ↔ 2 ≤ c.length ∨ ∃ p, c = [p] ∧ net.Feeds p p := by
  constructor
  · rintro ⟨p, hp, hcycle⟩
    obtain ⟨q, hfirst, hrest⟩ := Relation.TransGen.head'_iff.mp hcycle
    have hq : q ∈ c := (hc.together hp).mpr ⟨.single hfirst, hrest⟩
    rcases Nat.lt_or_ge c.length 2 with hlength | hlength
    · obtain ⟨r, rfl⟩ := List.length_eq_one_iff.mp
        (Nat.le_antisymm (Nat.le_of_lt_succ hlength) (List.length_pos_of_mem hp))
      obtain rfl := List.mem_singleton.mp hp
      obtain rfl := List.mem_singleton.mp hq
      exact .inr ⟨_, rfl, hfirst⟩
    · exact .inl hlength
  · rintro (hlength | ⟨p, rfl, hfeeds⟩)
    · match c, hlength with
      | p :: q :: rest, _ =>
        have hne : q ≠ p := fun h => (List.nodup_cons.mp hn).1 (h ▸ List.mem_cons_self)
        obtain ⟨hthere, hback⟩ := (hc.together List.mem_cons_self).mp
          (List.mem_cons_of_mem p List.mem_cons_self)
        have hstep := (Relation.reflTransGen_iff_eq_or_transGen.mp hthere).resolve_left hne
        exact ⟨p, List.mem_cons_self, hstep.trans_left hback⟩
    · exact ⟨p, List.mem_cons_self, .single hfeeds⟩

theorem isCyclic_iff (hnet : net.IsWellBuilt) (hn : c.Nodup) :
    net.isCyclic c = true ↔ net.HasCycle c := by
  rw [hasCycle_iff hc hn]
  match c, hc.ne_nil with
  | [p], _ => simp [isCyclic, mem_flowsTo_iff hnet]
  | p :: q :: rest, _ => simp [isCyclic]

end Cycles

/-- Places of which each feeds the next one, and the last one the first. -/
def IsCycle (net : Net α) (cycle : List String) : Prop :=
  ∃ p rest, cycle = p :: rest ∧ List.IsChain net.Feeds (p :: (rest ++ [p]))

/-- The places of a cycle are together. -/
theorem IsCycle.together {cycle : List String} (h : net.IsCycle cycle) :
    ∃ p ∈ cycle, Relation.TransGen net.Feeds p p ∧ ∀ q ∈ cycle, net.Together p q := by
  obtain ⟨p, rest, rfl, hchain⟩ := h
  have hsteps : (p :: (rest ++ [p])).Pairwise (Relation.TransGen net.Feeds) :=
    (hchain.imp fun _ _ h => .single h : List.IsChain (Relation.TransGen net.Feeds) _).pairwise
  obtain ⟨hfrom, hrest⟩ := List.pairwise_cons.mp hsteps
  refine ⟨p, List.mem_cons_self, hfrom p (by simp), fun q hq => ?_⟩
  rcases List.mem_cons.mp hq with rfl | hq
  · exact .refl net q
  · have hback := (List.pairwise_append.mp hrest).2.2 q hq p (List.mem_singleton_self p)
    exact ⟨(hfrom q (List.mem_append_left _ hq)).to_reflTransGen, hback.to_reflTransGen⟩

end Net

end NoteGraph
