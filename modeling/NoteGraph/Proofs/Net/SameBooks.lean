import Mathlib.Algebra.BigOperators.Group.List.Basic
import NoteGraph.Proofs.Engine.BookingOrder
import NoteGraph.Proofs.Graph.Books

/-!
# Nets of the same books

Two streams without morphs keep the same books when they have the same relations, if in another
order, and the same nodes but for plain roles. Then their accounting nets have the same
transactions, which have the same effects, and the same openings: a place that only one of the
nets has holds nothing and no arc leads to it. Numbers may be taken for any fractions, as long
as zero is zero.
-/

namespace NoteGraph

open Exact

/-- A node is the same to the books of two streams: it has the same role and, unless it is a
transaction, the same balance, or it has plain roles and no balance. -/
inductive SameNode (ops ops' : List Operation) (id : String) : Prop where
  | same : roleIn ops id = roleIn ops' id →
      (roleIn ops id = some transactionRole ∨ balanceIn ops id = balanceIn ops' id) →
      SameNode ops ops' id
  | plain : (∀ role ∈ roleIn ops id, IsPlainRole role) →
      (∀ role ∈ roleIn ops' id, IsPlainRole role) →
      balanceIn ops id = none → balanceIn ops' id = none → SameNode ops ops' id

/-- Two streams with the same relations, if in another order, and the same nodes. -/
structure SameBooks (ops ops' : List Operation) : Prop where
  relations : (ops.filterMap Operation.relation?).Perm (ops'.filterMap Operation.relation?)
  nodes : ∀ id, SameNode ops ops' id
  bare : IsBare ops
  bare' : IsBare ops'

namespace SameNode

variable {ops ops' : List Operation} {id : String}

theorem symm (h : SameNode ops ops' id) : SameNode ops' ops id := by
  cases h with
  | same hrole hbalance => exact .same hrole.symm (hrole ▸ hbalance.imp_right Eq.symm)
  | plain hplain hplain' hnone hnone' => exact .plain hplain' hplain hnone' hnone

/-- The role of a node that is no plain one is the same. -/
theorem role_iff (h : SameNode ops ops' id) {role : String} (hrole : ¬IsPlainRole role) :
    roleIn ops id = some role ↔ roleIn ops' id = some role := by
  cases h with
  | same heq => rw [heq]
  | plain hplain hplain' =>
    exact ⟨fun h => absurd (hplain role h) hrole, fun h => absurd (hplain' role h) hrole⟩

theorem normalSide_eq (h : SameNode ops ops' id) :
    normalSide (roleIn ops id) = normalSide (roleIn ops' id) := by
  cases h with
  | same heq => rw [heq]
  | plain hplain hplain' =>
    have hdebit : ∀ role : Option String, (∀ r ∈ role, IsPlainRole r) →
        normalSide role = .debit := by
      intro role hrole
      cases role with
      | none => rfl
      | some r => rcases hrole r rfl with rfl | rfl | rfl <;> rfl
    rw [hdebit _ hplain, hdebit _ hplain']

end SameNode

theorem SameBooks.symm {ops ops' : List Operation} (h : SameBooks ops ops') : SameBooks ops' ops :=
  ⟨h.relations.symm, fun id => (h.nodes id).symm, h.bare', h.bare⟩

namespace Graph

variable {ops ops' : List Operation}

/-! ### Transitions and arcs -/

theorem isTransition_ofOperations_iff (ops : List Operation) (id : String) :
    (ofOperations ops).isTransition id = true ↔
      ∃ role ∈ transitionRoles, roleIn ops id = some role := by
  rw [← role_node?, isTransition, List.any_eq_true]
  constructor
  · rintro ⟨n, hn, hid⟩
    obtain ⟨hmem, hrole⟩ := List.mem_filter.mp hn
    obtain rfl := beq_iff_eq.mp hid
    refine ⟨n.role, by simpa using hrole, ?_⟩
    rw [node?_of_mem (nodup_map_id_nodes ops) hmem]
    rfl
  · rintro ⟨role, hrole, hnode⟩
    obtain ⟨n, hfound, rfl⟩ := Option.map_eq_some_iff.mp hnode
    exact ⟨n, List.mem_filter.mpr ⟨List.mem_of_find?_eq_some hfound, by simpa using hrole⟩,
      by simpa using List.find?_some hfound⟩

theorem isTransition_congr (h : SameBooks ops ops') :
    (ofOperations ops).isTransition = (ofOperations ops').isTransition := by
  have hplain : ∀ role ∈ transitionRoles, ¬IsPlainRole role := by decide
  funext id
  rw [Bool.eq_iff_iff, isTransition_ofOperations_iff, isTransition_ofOperations_iff]
  exact exists_congr fun role => and_congr_right fun hrole =>
    (h.nodes id).role_iff (hplain role hrole)

/-- The arc of a relation, if it makes one. -/
def arcOfRelation? (isTransition : String → Bool) (r : RelationRecord) : Option (Arc Number) :=
  if (Direction.ofRelation? r.name).isSome && isTransition r.source &&
      (!isTransition r.target && Number.lt 0 r.weight) then
    some ⟨(Direction.ofRelation? r.name).getD .input, r.target, r.source, r.weight.toFloat⟩
  else none

theorem arcs_ofOperations (h : IsBare ops) : (ofOperations ops).arcEdges.map arcOf =
    (ops.filterMap Operation.relation?).filterMap
      (arcOfRelation? (ofOperations ops).isTransition) := by
  let g := ofOperations ops
  let arc? (e : Edge) : Option (Arc Number) :=
    if (Direction.ofRelation? e.name).isSome && g.isTransition e.sourceId && g.makesArc e then
      some (arcOf e)
    else none
  calc g.arcEdges.map arcOf
      = g.edges.filterMap arc? := by
        rw [← List.filterMap_eq_map, arcEdges, stateEdges, List.filterMap_filter,
          List.filterMap_filter]
        refine List.filterMap_congr fun e _ => ?_
        rw [← ite_and]
        exact if_congr Bool.and_eq_true_iff.symm rfl rfl
    _ = (g.edges.map Edge.bare).filterMap arc? := by
        rw [List.filterMap_map]
        rfl
    _ = _ := by
        rw [bare_edges_of_apart h.unscoped h.apart, List.filterMap_filterMap,
          List.filterMap_filterMap]
        refine List.filterMap_congr fun op _ => ?_
        rw [Operation.edge?_eq]
        cases op.relation? <;> rfl

theorem arcs_perm (h : SameBooks ops ops') :
    ((ofOperations ops).arcEdges.map arcOf).Perm ((ofOperations ops').arcEdges.map arcOf) := by
  rw [arcs_ofOperations h.bare, arcs_ofOperations h.bare', isTransition_congr h]
  exact h.relations.filterMap _

/-! ### Openings -/

theorem opening_congr (h : SameBooks ops ops') {id : String}
    (hid : (ofOperations ops).isTransition id = false) :
    (ofOperations ops).opening id = (ofOperations ops').opening id := by
  rw [opening_eq h.bare, opening_eq h.bare']
  cases h.nodes id with
  | same hrole hbalance =>
    rcases hbalance with htransaction | hbalance
    · have htransition := (isTransition_ofOperations_iff ops id).mpr
        ⟨_, by decide, htransaction⟩
      rw [hid] at htransition
      cases htransition
    · rw [hbalance]
  | plain _ _ hnone hnone' => rw [hnone, hnone']

/-- A place that only one of the nets has opens with nothing. -/
theorem opening_eq_zero (h : SameBooks ops ops') {id : String}
    (hid : id ∈ (ofOperations ops).placeIds true) (hid' : id ∉ (ofOperations ops').placeIds true) :
    (ofOperations ops).opening id = 0 := by
  have hplace := isTransition_of_mem_placeIds hid
  rcases mem_placeIds.mp hid with htarget | ⟨-, n, hn, rfl, haccount⟩
  · obtain ⟨e, he, rfl⟩ := List.mem_map.mp htarget
    obtain ⟨e', he', harc⟩ :=
      List.mem_map.mp ((arcs_perm h).mem_iff.mp (List.mem_map_of_mem (f := arcOf) he))
    have hends : e'.targetId = e.targetId := congrArg Arc.place harc
    exact absurd (mem_placeIds.mpr (Or.inl (hends ▸ List.mem_map_of_mem he'))) hid'
  · have hrole : roleIn ops n.id = some n.role := by
      rw [← role_node?, node?_of_mem (nodup_map_id_nodes ops) hn]
      rfl
    cases h.nodes n.id with
    | plain _ _ hnone =>
      rw [opening_eq h.bare, hnone]
      rfl
    | same hsame =>
      -- the node has its role in the other graph too, so it is an account there
      have hrole' := (role_node? ops' n.id).trans (hsame.symm.trans hrole)
      obtain ⟨n', hfound, heq⟩ := Option.map_eq_some_iff.mp hrole'
      have hid : n'.id = n.id := by simpa using List.find?_some hfound
      have haccount' : (ofOperations ops').isAccountPlace n' = true := by
        rw [isAccountPlace, heq, hid, ← isTransition_congr h]
        exact haccount
      exact absurd (mem_placeIds.mpr
        (Or.inr ⟨rfl, n', List.mem_of_find?_eq_some hfound, hid, haccount'⟩)) hid'

/-- What the places open with is finite in both graphs or in none. -/
theorem opensFinite_congr (h : SameBooks ops ops') {tokens tokens' : Number}
    (hfinite : (ofOperations ops).OpensFinite true tokens) :
    (ofOperations ops').OpensFinite true tokens' := by
  intro id hid
  by_cases hmem : id ∈ (ofOperations ops).placeIds true
  · rw [← opening_congr h (isTransition_of_mem_placeIds hmem)]
    exact hfinite id hmem
  · rw [opening_eq_zero h.symm hid hmem, Number.Binary64.zero_def, Number.Binary64.zero_eq]
    rfl

end Graph

end NoteGraph
