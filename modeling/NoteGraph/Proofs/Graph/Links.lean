import NoteGraph.Proofs.Graph.Nodes

/-!
# Links go both ways

A morph lists records and a record has morphs, in two places that every replayed operation
changes together. The invariant `IsLinked` says that the two agree: what a morph lists has the
morph among its own, each morph of a record lists it, and nothing is listed twice. It is kept
by every operation (`Graph.isLinked_replay`), whatever the identifiers are, and so it holds of
the graph of every stream.
-/

namespace NoteGraph

namespace Links

variable {links : Links} {id id' morphId morphId' : String}

theorem Has.make (h : links.Has id' morphId) (id : String) :
    (links.make id).Has id' morphId := by
  obtain ⟨link, hlink, hhas⟩ := h
  exact ⟨link, subset_addFirst Prod.fst links (id, []) hlink, hhas⟩

theorem mem_make {link : String × List String} (h : link ∈ links.make id) :
    link ∈ links ∨ link = (id, []) :=
  mem_addFirst Prod.fst h

theorem mem_map_make (links : Links) (id : String) : id ∈ (links.make id).map Prod.fst :=
  (mem_map_addFirst Prod.fst).mpr (Or.inr rfl)

theorem map_fst_join (links : Links) (id morphId : String) :
    (links.join id morphId).map Prod.fst = links.map Prod.fst := by
  rw [join, List.map_map]
  refine List.map_congr_left fun link _ => ?_
  simp only [Function.comp_apply]
  split_ifs <;> rfl

theorem mem_join {link : String × List String} : link ∈ links.join id morphId ↔
    (link ∈ links ∧ link.1 ≠ id) ∨ ∃ morphIds, (id, morphIds) ∈ links ∧
      link = (id, morphIds ++ [morphId]) := by
  unfold join
  constructor
  · intro h
    obtain ⟨old, hold, rfl⟩ := List.mem_map.mp h
    by_cases hid : old.1 = id
    · subst hid
      rw [if_pos (beq_self_eq_true old.1)]
      exact Or.inr ⟨old.2, hold, rfl⟩
    · rw [if_neg (by simpa using hid)]
      exact Or.inl ⟨hold, hid⟩
  · rintro (⟨hold, hid⟩ | ⟨morphIds, hold, rfl⟩)
    · exact List.mem_map.mpr ⟨link, hold, if_neg (by simpa using hid)⟩
    · exact List.mem_map.mpr ⟨_, hold, if_pos (beq_self_eq_true id)⟩

theorem Has.join (h : links.Has id' morphId') (id morphId : String) :
    (links.join id morphId).Has id' morphId' := by
  obtain ⟨link, hlink, rfl, hmorph⟩ := h
  by_cases hid : link.1 = id
  · subst hid
    exact ⟨_, mem_join.mpr (Or.inr ⟨link.2, hlink, rfl⟩), rfl, List.mem_append_left _ hmorph⟩
  · exact ⟨link, mem_join.mpr (Or.inl ⟨hlink, hid⟩), rfl, hmorph⟩

/-- A record that is joined to a morph has it. -/
theorem has_join (h : id ∈ links.map Prod.fst) (morphId : String) :
    (links.join id morphId).Has id morphId := by
  obtain ⟨link, hlink, rfl⟩ := List.mem_map.mp h
  exact ⟨_, mem_join.mpr (Or.inr ⟨link.2, hlink, rfl⟩), rfl, by simp⟩

end Links

/-! ### The invariant -/

/-- The records of a kind and the morphs that list them agree. -/
structure IsLinked (kind : RecordKind) (morphs : List Morph) (links : Links) : Prop where
  distinct : (links.map Prod.fst).Nodup
  listed : ∀ m ∈ morphs, (m.listed kind).Nodup ∧ ∀ id ∈ m.listed kind, links.Has id m.morphId
  joined : ∀ link ∈ links, link.2.Nodup ∧
    ∀ morphId ∈ link.2, ∃ m ∈ morphs, m.morphId = morphId ∧ link.1 ∈ m.listed kind

namespace Graph

/-- A morph after a record was listed under the morphs of an identifier in one node. -/
theorem mem_morphs_listUnder {g : Graph} {kind : RecordKind} {id source morphId : String}
    {m' : Morph} : m' ∈ (g.listUnder kind id source morphId).morphs ↔
      ∃ n ∈ g.nodes, ∃ m ∈ n.morphs,
        (if n.id = source ∧ m.morphId = morphId then m.list kind id else m) = m' := by
  have hnode (n : Node) :
      (if n.id == source then n.modifyMorph morphId fun m => m.list kind id else n).morphs =
        n.morphs.map fun m =>
          if n.id = source ∧ m.morphId = morphId then m.list kind id else m := by
    by_cases hid : n.id = source
    · simp [hid, Node.modifyMorph, Node.morphs]
    · simp [hid]
  simp only [morphs, listUnder, modifyNode, List.flatMap_map, hnode, List.mem_flatMap,
    List.mem_map]

/-- A morph that a record is made under is a morph of the source. -/
theorem exists_morph_of_targetMorph {g : Graph} {kind : RecordKind} {id source : String}
    {morphId : Option String} {m : String}
    (h : g.targetMorph kind id source morphId = .ok m) :
    ∃ n ∈ g.nodes, n.id = source ∧ ∃ morph ∈ n.morphs, morph.morphId = m := by
  unfold targetMorph at h
  cases hnode : g.node? source with
  | none =>
    rw [hnode] at h
    cases h
  | some n =>
    rw [hnode] at h
    refine ⟨n, List.mem_of_find?_eq_some hnode, by simpa using List.find?_some hnode, ?_⟩
    cases morphId with
    | none =>
      cases h
      exact ⟨n.basic, List.mem_cons_self, rfl⟩
    | some given =>
      simp only at h
      split_ifs at h with hsome
      cases h
      simpa [Node.morph?, List.find?_isSome] using hsome

end Graph

namespace IsLinked

variable {kind kind' : RecordKind} {morphs : List Morph} {links : Links} {id : String}

theorem make (h : IsLinked kind morphs links) (id : String) :
    IsLinked kind morphs (links.make id) := by
  refine ⟨nodup_addFirst Prod.fst h.distinct _, ?_, ?_⟩
  · intro m hm
    obtain ⟨hnodup, hhas⟩ := h.listed m hm
    exact ⟨hnodup, fun id' hid' => (hhas id' hid').make id⟩
  · intro link hlink
    rcases Links.mem_make hlink with hold | rfl
    · exact h.joined link hold
    · exact ⟨List.nodup_nil, fun _ h => nomatch h⟩

variable {g : Graph} {source morphId : String}

/-- A record that joins a new morph of its source is listed there once. -/
theorem join (h : IsLinked kind g.morphs links) (hid : id ∈ links.map Prod.fst)
    (hnew : ¬links.Has id morphId)
    (hmorph : ∃ n ∈ g.nodes, n.id = source ∧ ∃ m ∈ n.morphs, m.morphId = morphId) :
    IsLinked kind (g.listUnder kind id source morphId).morphs (links.join id morphId) := by
  refine ⟨?_, ?_, ?_⟩
  · rw [Links.map_fst_join]
    exact h.distinct
  · intro m' hm'
    obtain ⟨n, hn, m, hm, rfl⟩ := Graph.mem_morphs_listUnder.mp hm'
    obtain ⟨hnodup, hhas⟩ := h.listed m (List.mem_flatMap.mpr ⟨n, hn, hm⟩)
    split_ifs with hjoins
    · obtain ⟨-, rfl⟩ := hjoins
      -- the morph cannot list the record already, for then the record would have it
      have hfresh : id ∉ m.listed kind := fun hmem => hnew (hhas id hmem)
      rw [Morph.listed_list, if_pos rfl, Morph.morphId_list]
      refine ⟨List.Nodup.append hnodup (List.nodup_singleton id)
        (List.disjoint_singleton.mpr hfresh), fun id' hid' => ?_⟩
      rcases List.mem_append.mp hid' with hold | hlast
      · exact (hhas id' hold).join id m.morphId
      · rw [List.mem_singleton.mp hlast]
        exact Links.has_join hid m.morphId
    · exact ⟨hnodup, fun id' hid' => (hhas id' hid').join id morphId⟩
  · -- what a morph listed it still lists, whether or not the record was added to it
    have hkeep : ∀ mid rid, (∃ m ∈ g.morphs, m.morphId = mid ∧ rid ∈ m.listed kind) →
        ∃ m ∈ (g.listUnder kind id source morphId).morphs,
          m.morphId = mid ∧ rid ∈ m.listed kind := by
      rintro mid rid ⟨m, hm, rfl, hrid⟩
      obtain ⟨n, hn, hmn⟩ := List.mem_flatMap.mp hm
      refine ⟨_, Graph.mem_morphs_listUnder.mpr ⟨n, hn, m, hmn, rfl⟩, ?_⟩
      split_ifs
      · rw [Morph.listed_list, if_pos rfl]
        exact ⟨m.morphId_list kind id, List.mem_append_left _ hrid⟩
      · exact ⟨rfl, hrid⟩
    intro link hlink
    rcases Links.mem_join.mp hlink with ⟨hold, -⟩ | ⟨morphIds, hold, rfl⟩
    · obtain ⟨hnodup, hlists⟩ := h.joined link hold
      exact ⟨hnodup, fun mid hmid => hkeep mid link.1 (hlists mid hmid)⟩
    · obtain ⟨hnodup, hlists⟩ := h.joined (id, morphIds) hold
      have hfresh : morphId ∉ morphIds := fun hmem => hnew ⟨_, hold, rfl, hmem⟩
      refine ⟨List.Nodup.append hnodup (List.nodup_singleton morphId)
        (List.disjoint_singleton.mpr hfresh), fun mid hmid => ?_⟩
      rcases List.mem_append.mp hmid with hmid | hmid
      · exact hkeep mid id (hlists mid hmid)
      · obtain ⟨n, hn, hsource, m, hm, hmid'⟩ := hmorph
        rw [List.mem_singleton.mp hmid]
        refine ⟨m.list kind id, Graph.mem_morphs_listUnder.mpr
          ⟨n, hn, m, hm, if_pos ⟨hsource, hmid'⟩⟩, ?_, ?_⟩
        · rw [Morph.morphId_list, hmid']
        · rw [Morph.listed_list, if_pos rfl]
          exact List.mem_append_right _ (List.mem_singleton_self id)

/-- Records of the other kind do not change when one is listed. -/
theorem listOther (h : IsLinked kind' g.morphs links) (hkind : kind' ≠ kind) :
    IsLinked kind' (g.listUnder kind id source morphId).morphs links := by
  have hsame (n : Node) (m : Morph) :
      (if n.id = source ∧ m.morphId = morphId then m.list kind id else m).morphId = m.morphId ∧
        (if n.id = source ∧ m.morphId = morphId then m.list kind id else m).listed kind' =
          m.listed kind' := by
    split_ifs
    · exact ⟨m.morphId_list kind id, by rw [Morph.listed_list, if_neg hkind]⟩
    · exact ⟨rfl, rfl⟩
  refine ⟨h.distinct, ?_, ?_⟩
  · intro m' hm'
    obtain ⟨n, hn, m, hm, rfl⟩ := Graph.mem_morphs_listUnder.mp hm'
    rw [(hsame n m).1, (hsame n m).2]
    exact h.listed m (List.mem_flatMap.mpr ⟨n, hn, hm⟩)
  · intro link hlink
    obtain ⟨hnodup, hlists⟩ := h.joined link hlink
    refine ⟨hnodup, fun mid hmid => ?_⟩
    obtain ⟨m, hm, heq, hrid⟩ := hlists mid hmid
    obtain ⟨n, hn, hmn⟩ := List.mem_flatMap.mp hm
    refine ⟨_, Graph.mem_morphs_listUnder.mpr ⟨n, hn, m, hmn, rfl⟩, ?_⟩
    rw [(hsame n m).1, (hsame n m).2]
    exact ⟨heq, hrid⟩

end IsLinked

namespace Graph

/-- All records of a graph and all its morphs agree. -/
def IsLinked (g : Graph) : Prop := ∀ kind, NoteGraph.IsLinked kind g.morphs (g.links kind)

theorem Makes.isLinked {kind : RecordKind} {id source : String} {morphId : Option String}
    {g g' : Graph} (h : Makes kind id source morphId g g') (hg : g.IsLinked) : g'.IsLinked := by
  intro kind'
  have hmade := (hg kind).make id
  cases h with
  | reported _ _ hnodes _ hlinks | kept _ _ _ hnodes _ hlinks =>
    rw [hlinks, morphs, hnodes]
    by_cases hkind : kind' = kind
    · subst hkind
      rw [Function.update_self]
      exact hmade
    · rw [Function.update_of_ne hkind]
      exact hg kind'
  | joined m htarget hnew hnodes _ hlinks =>
    rw [hlinks, morphs, hnodes]
    by_cases hkind : kind' = kind
    · subst hkind
      rw [Function.update_self]
      exact hmade.join (Links.mem_map_make _ id) hnew (exists_morph_of_targetMorph htarget)
    · rw [Function.update_of_ne hkind]
      exact (hg kind').listOther hkind

/-- A replayed operation keeps records and morphs in agreement. -/
theorem isLinked_replay {g : Graph} (hg : g.IsLinked) (op : Operation) :
    (g.replay op).IsLinked := by
  rcases g.replay_cases op with ⟨kind, source, morphId, -, hmakes⟩ | ⟨r, -, hfield⟩ |
    ⟨hnodes, hlinks, -⟩
  · exact hmakes.isLinked hg
  · intro kind
    rw [hfield, morphs_updateField, links_updateField]
    exact hg kind
  · intro kind
    rw [morphs, hnodes, hlinks]
    exact hg kind

theorem isLinked_foldl_replay (ops : List Operation) :
    ∀ {g : Graph}, g.IsLinked → (ops.foldl replay g).IsLinked := by
  induction ops with
  | nil => exact fun hg => hg
  | cons op rest ih => exact fun hg => ih (isLinked_replay hg op)

theorem isLinked_declared (ops : List Operation) : (declared ops).IsLinked := by
  intro kind
  rw [links_declared]
  refine ⟨List.nodup_nil, ?_, fun _ h => nomatch h⟩
  intro m hm
  obtain ⟨n, hn, hm⟩ := List.mem_flatMap.mp hm
  rw [nodes_declared] at hn
  obtain ⟨k, hk, rfl⟩ := List.mem_mapIdx.mp hn
  rw [← bare_declaredNode, Node.morphs_bare] at hm
  obtain ⟨old, -, rfl⟩ := List.mem_map.mp hm
  have hnone : old.bare.listed kind = [] := by
    cases kind <;> rfl
  rw [hnone]
  exact ⟨List.nodup_nil, fun _ h => nomatch h⟩

theorem isLinked_ofOperations (ops : List Operation) : (ofOperations ops).IsLinked :=
  isLinked_foldl_replay ops (isLinked_declared ops)

/-! ### Referential integrity -/

/-- Identifiers tell nodes, edges, attributes and the morphs of a node apart; every node has
morphs of its own, the basic one first and active; and records and morphs name each other,
once. -/
structure HasIntegrity (g : Graph) : Prop where
  nodeIds : (g.nodes.map (·.id)).Nodup
  edgeIds : (g.edges.map (·.id)).Nodup
  attributeIds : (g.attributes.map (·.id)).Nodup
  basicFirst : ∀ n ∈ g.nodes, ∃ m ∈ n.morphs.head?, m.name = "basic" ∧ n.nbh = m.morphId
  ownMorphs : ∀ n ∈ g.nodes, ∀ m ∈ n.morphs, m.nodeId = n.id
  morphIds : ∀ n ∈ g.nodes, (n.morphs.map (·.morphId)).Nodup
  listedRelations : ∀ n ∈ g.nodes, ∀ m ∈ n.morphs, m.relationIds.Nodup ∧
    ∀ id ∈ m.relationIds, ∃ e ∈ g.edges, e.id = id ∧ m.morphId ∈ e.morphIds
  listedAttributes : ∀ n ∈ g.nodes, ∀ m ∈ n.morphs, m.attributeIds.Nodup ∧
    ∀ id ∈ m.attributeIds, ∃ a ∈ g.attributes, a.id = id ∧ m.morphId ∈ a.morphIds
  edgeMorphs : ∀ e ∈ g.edges, e.morphIds.Nodup ∧
    ∀ morphId ∈ e.morphIds, ∃ n ∈ g.nodes, ∃ m ∈ n.morphs,
      m.morphId = morphId ∧ e.id ∈ m.relationIds
  attributeMorphs : ∀ a ∈ g.attributes, a.morphIds.Nodup ∧
    ∀ morphId ∈ a.morphIds, ∃ n ∈ g.nodes, ∃ m ∈ n.morphs,
      m.morphId = morphId ∧ a.id ∈ m.attributeIds

theorem IsLinked.relations {g : Graph} (h : g.IsLinked) {n : Node} (hn : n ∈ g.nodes) {m : Morph}
    (hm : m ∈ n.morphs) : m.relationIds.Nodup ∧
      ∀ id ∈ m.relationIds, ∃ e ∈ g.edges, e.id = id ∧ m.morphId ∈ e.morphIds := by
  obtain ⟨hnodup, hhas⟩ := (h .relation).listed m (List.mem_flatMap.mpr ⟨n, hn, hm⟩)
  refine ⟨hnodup, fun id hid => ?_⟩
  obtain ⟨link, hlink, heq, hmorph⟩ := hhas id hid
  obtain ⟨e, he, rfl⟩ := List.mem_map.mp hlink
  exact ⟨e, he, heq, hmorph⟩

theorem IsLinked.attributes {g : Graph} (h : g.IsLinked) {n : Node} (hn : n ∈ g.nodes)
    {m : Morph} (hm : m ∈ n.morphs) : m.attributeIds.Nodup ∧
      ∀ id ∈ m.attributeIds, ∃ a ∈ g.attributes, a.id = id ∧ m.morphId ∈ a.morphIds := by
  obtain ⟨hnodup, hhas⟩ := (h .attribute).listed m (List.mem_flatMap.mpr ⟨n, hn, hm⟩)
  refine ⟨hnodup, fun id hid => ?_⟩
  obtain ⟨link, hlink, heq, hmorph⟩ := hhas id hid
  obtain ⟨a, ha, rfl⟩ := List.mem_map.mp hlink
  exact ⟨a, ha, heq, hmorph⟩

/-- The morphs of a record are morphs of nodes, and they list it. -/
theorem IsLinked.morphs {g : Graph} (h : g.IsLinked) (kind : RecordKind)
    {link : String × List String} (hlink : link ∈ g.links kind) : link.2.Nodup ∧
      ∀ morphId ∈ link.2, ∃ n ∈ g.nodes, ∃ m ∈ n.morphs,
        m.morphId = morphId ∧ link.1 ∈ m.listed kind := by
  obtain ⟨hnodup, hlists⟩ := (h kind).joined link hlink
  refine ⟨hnodup, fun morphId hmorphId => ?_⟩
  obtain ⟨m, hm, hlisted⟩ := hlists morphId hmorphId
  obtain ⟨n, hn, hmn⟩ := List.mem_flatMap.mp hm
  exact ⟨n, hn, m, hmn, hlisted⟩

theorem IsLinked.nodup_edges {g : Graph} (h : g.IsLinked) : (g.edges.map (·.id)).Nodup := by
  have hdistinct := (h .relation).distinct
  rwa [links, List.map_map] at hdistinct

theorem IsLinked.nodup_attributes {g : Graph} (h : g.IsLinked) :
    (g.attributes.map (·.id)).Nodup := by
  have hdistinct := (h .attribute).distinct
  rwa [links, List.map_map] at hdistinct

/-- **Referential integrity**: whatever the operations of a stream and their identifiers are,
in its graph identifiers are distinct, every node has its basic morph first, and records and
morphs name each other. -/
theorem hasIntegrity_ofOperations (ops : List Operation) : (ofOperations ops).HasIntegrity where
  nodeIds := nodup_map_id_nodes ops
  edgeIds := (isLinked_ofOperations ops).nodup_edges
  attributeIds := (isLinked_ofOperations ops).nodup_attributes
  basicFirst n hn := by
    obtain ⟨k, d, -, hbare⟩ := exists_declaration hn
    obtain ⟨-, hname, hactive⟩ := basic_of_bare hbare
    exact ⟨n.basic, rfl, hname, hactive⟩
  ownMorphs n hn m hm := nodeId_of_mem_morphs hn hm
  morphIds n hn := nodup_morphIds hn
  listedRelations n hn m hm := (isLinked_ofOperations ops).relations hn hm
  listedAttributes n hn m hm := (isLinked_ofOperations ops).attributes hn hm
  edgeMorphs e he := (isLinked_ofOperations ops).morphs .relation (List.mem_map_of_mem he)
  attributeMorphs a ha := (isLinked_ofOperations ops).morphs .attribute (List.mem_map_of_mem ha)

end Graph

end NoteGraph
