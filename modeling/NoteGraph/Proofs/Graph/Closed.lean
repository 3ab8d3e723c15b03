import NoteGraph.Proofs.Graph.Links
import NoteGraph.Proofs.Graph.References
import NoteGraph.Proofs.Operation.Grounded

/-!
# The graph of texts is closed

The texts of a session refer only to what they declare, so their graph has no errors, its
records lead from nodes to nodes, and every record found a morph to belong to.
-/

namespace NoteGraph

/-! ### Records that found a morph -/

theorem Links.make_of_has {links : Links} {id morphId : String}
    (h : (links.make id).Has id morphId) : links.make id = links := by
  refine addFirst_of_mem Prod.fst ?_
  obtain ⟨link, hlink, hid, hmorph⟩ := h
  rcases mem_make hlink with hold | rfl
  · exact List.mem_map.mpr ⟨link, hold, hid⟩
  · cases hmorph

namespace Graph

/-- Every record belongs to a morph. -/
def AllJoined (g : Graph) : Prop := ∀ kind, ∀ link ∈ g.links kind, link.2 ≠ []

theorem Makes.allJoined {kind : RecordKind} {id source : String} {morphId : Option String}
    {g g' : Graph} (h : Makes kind id source morphId g g') (hg : g.AllJoined)
    (hfound : errorOf? (g.targetMorph kind id source morphId) = none) : g'.AllJoined := by
  intro kind' link hlink
  cases h with
  | reported e htarget =>
    rw [htarget] at hfound
    cases hfound
  | kept m _ hhas _ _ hlinks =>
    rw [hlinks, Links.make_of_has hhas, Function.update_eq_self] at hlink
    exact hg kind' link hlink
  | joined m _ _ _ _ hlinks =>
    rw [hlinks] at hlink
    by_cases hkind : kind' = kind
    · subst hkind
      rw [Function.update_self] at hlink
      rcases Links.mem_join.mp hlink with ⟨hmade, hid⟩ | ⟨morphIds, -, rfl⟩
      · rcases Links.mem_make hmade with hold | rfl
        · exact hg kind' link hold
        · exact absurd rfl hid
      · exact List.append_ne_nil_of_right_ne_nil _ (List.cons_ne_nil m [])
    · rw [Function.update_of_ne hkind] at hlink
      exact hg kind' link hlink

/-- Every record belongs to a morph after a replayed operation that is not reported. -/
theorem allJoined_replay {g : Graph} (hg : g.AllJoined) {op : Operation}
    (herror : g.replayError? op = none) : (g.replay op).AllJoined := by
  rcases g.replay_cases op with ⟨kind, source, morphId, hrecord, hmakes⟩ | ⟨r, -, hfield⟩ |
    ⟨-, hlinks, -⟩
  · exact hmakes.allJoined hg ((replayError?_of_record hrecord).symm.trans herror)
  · intro kind
    rw [hfield, links_updateField]
    exact hg kind
  · intro kind
    rw [hlinks]
    exact hg kind

theorem allJoined_foldl_replay (ops : List Operation) : ∀ {g : Graph}, g.AllJoined →
    (∀ op ∈ ops, g.replayError? op = none) → (ops.foldl replay g).AllJoined := by
  induction ops with
  | nil => exact fun hg _ => hg
  | cons op rest ih =>
    intro g hg herror
    refine ih (allJoined_replay hg (herror op List.mem_cons_self)) fun other hother => ?_
    rw [replayError?_congr (g.bare_nodes_replay op)]
    exact herror other (List.mem_cons_of_mem op hother)

theorem allJoined_ofOperations {ops : List Operation} (h : (ofOperations ops).errors = []) :
    (ofOperations ops).AllJoined := by
  refine allJoined_foldl_replay ops ?_ fun op hop => ?_
  · intro kind link hlink
    have hnone := links_declared ops kind
    rw [declared] at hnone
    rw [hnone] at hlink
    cases hlink
  · have hbare : (declared ops).nodes.map Node.bare = (ofOperations ops).nodes.map Node.bare :=
      (bare_nodes_foldl_replay ops (declared ops)).symm
    rw [← declared, replayError?_congr hbare]
    exact ((errors_eq_nil_iff_forall ops).mp h op hop).2

/-! ### Closed graphs -/

/-- A graph without errors, whose records lead from nodes to nodes and belong to morphs. -/
structure IsClosed (g : Graph) : Prop where
  errors : g.errors = []
  edgeEnds : ∀ e ∈ g.edges,
    e.sourceId ∈ g.nodes.map (·.id) ∧ e.targetId ∈ g.nodes.map (·.id)
  attributeSources : ∀ a ∈ g.attributes, a.sourceId ∈ g.nodes.map (·.id)
  edgeMorphs : ∀ e ∈ g.edges, ∃ n ∈ g.nodes, ∃ m ∈ n.morphs,
    m.morphId ∈ e.morphIds ∧ e.id ∈ m.relationIds
  attributeMorphs : ∀ a ∈ g.attributes, ∃ n ∈ g.nodes, ∃ m ∈ n.morphs,
    m.morphId ∈ a.morphIds ∧ a.id ∈ m.attributeIds

section Stream

variable {ops : List Operation}

/-- An edge of a graph is what some operation of its stream makes. -/
theorem exists_relation {e : Edge} (he : e ∈ (ofOperations ops).edges) :
    ∃ op ∈ ops, ∃ record, op.action = .addRelation record ∧ e.sourceId = record.source ∧
      e.targetId = record.target := by
  have hbare : e.bare ∈ (ofOperations ops).edges.map Edge.bare := List.mem_map_of_mem he
  rw [bare_edges_ofOperations] at hbare
  obtain ⟨op, hop, hmade⟩ :=
    List.mem_filterMap.mp ((mem_foldl_addFirst Edge.id hbare).resolve_left List.not_mem_nil)
  unfold Operation.edge? at hmade
  split at hmade
  · rename_i record haction
    have heq := Option.some.inj hmade
    exact ⟨op, hop, record, haction, (congrArg Edge.sourceId heq).symm,
      (congrArg Edge.targetId heq).symm⟩
  · cases hmade

/-- An attribute of a graph is what some operation of its stream makes. -/
theorem exists_source {a : Attribute} (ha : a ∈ (ofOperations ops).attributes) :
    ∃ op ∈ ops, Reference.node a.sourceId ∈ op.references := by
  have hbare : a.bare ∈ (ofOperations ops).attributes.map Attribute.bare :=
    List.mem_map_of_mem ha
  rw [bare_attributes_ofOperations] at hbare
  obtain ⟨op, hop, hmade⟩ :=
    List.mem_filterMap.mp ((mem_foldl_addFirst Attribute.id hbare).resolve_left List.not_mem_nil)
  refine ⟨op, hop, ?_⟩
  unfold Operation.attribute? at hmade
  unfold Operation.references
  split at hmade
  · rename_i record haction
    rw [haction]
    exact (congrArg Attribute.sourceId (Option.some.inj hmade)) ▸ List.mem_cons_self
  · rename_i record haction
    rw [haction]
    exact (congrArg Attribute.sourceId (Option.some.inj hmade)) ▸ List.mem_cons_self
  · cases hmade

theorem exists_morph_of_link (h : (ofOperations ops).errors = []) (kind : RecordKind)
    {link : String × List String} (hlink : link ∈ (ofOperations ops).links kind) :
    ∃ n ∈ (ofOperations ops).nodes, ∃ m ∈ n.morphs,
      m.morphId ∈ link.2 ∧ link.1 ∈ m.listed kind := by
  obtain ⟨morphId, hmorphId⟩ :=
    List.exists_mem_of_ne_nil link.2 (allJoined_ofOperations h kind link hlink)
  obtain ⟨n, hn, m, hm, rfl, hlisted⟩ :=
    ((isLinked_ofOperations ops).morphs kind hlink).2 morphId hmorphId
  exact ⟨n, hn, m, hm, hmorphId, hlisted⟩

end Stream

/-- **Texts have closed graphs**: the texts of a session, compiled one after another, make a
graph without errors in which every record leads from a node to a node and belongs to a
morph. -/
theorem isClosed_texts (texts : List String) :
    (ofOperations (operationsOfAll operationsIn .empty texts).1).IsClosed := by
  have hknown := @known_of_mem_references texts
  generalize (operationsOfAll operationsIn .empty texts).1 = ops at hknown
  have hresolves : ∀ op ∈ ops, ∀ ref ∈ op.references, ref.Resolves ops := by
    intro op hop ref href
    have h := hknown hop href
    cases ref with
    | node | target | field => exact h
    | morph => exact Or.inl h
  have herrors : (ofOperations ops).errors = [] := by
    refine (errors_eq_nil_iff_forall ops).mpr fun op hop => (errors?_eq_none_iff op).mpr ?_
    exact fun ref href => Or.inr (hresolves op hop ref href)
  refine ⟨herrors, ?_, ?_, ?_, ?_⟩
  · intro e he
    obtain ⟨op, hop, record, haction, hsource, htarget⟩ := exists_relation he
    rw [mem_nodes_iff, mem_nodes_iff, hsource, htarget]
    have hrefs := hresolves op hop
    rw [Operation.references, haction] at hrefs
    exact ⟨hrefs (.node record.source) (List.mem_cons_of_mem _ List.mem_cons_self),
      hrefs (.target record.target) List.mem_cons_self⟩
  · intro a ha
    obtain ⟨op, hop, href⟩ := exists_source ha
    rw [mem_nodes_iff]
    exact hresolves op hop _ href
  · intro e he
    exact exists_morph_of_link herrors .relation (List.mem_map_of_mem he)
  · intro a ha
    exact exists_morph_of_link herrors .attribute (List.mem_map_of_mem ha)

end Graph

end NoteGraph
