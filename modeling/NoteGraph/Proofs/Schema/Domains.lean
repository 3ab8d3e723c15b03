import NoteGraph.Proofs.Operation.Placeholders
import NoteGraph.Proofs.Schema.Findings

/-!
# Domains and the roles of a graph

A relation is reported for its domain exactly when the domain bars the role with which the stream
first declares the source. The graph keeps that role, except an empty one, which it takes for an
individual's. So the reports are about the graph that is built, as long as no type tells a source
without a role from an individual; and only a heading with a blank role in brackets declares a
node without a role.
-/

namespace NoteGraph.Schema

open NoteGraph.Language

/-- Whether the domain of the relations of a name keeps out sources of a role: there is one, and
the role reaches nothing in it. -/
def Catalog.Bars (c : Catalog) (name role : String) : Prop :=
  ∃ type, c.relationType? name = some type ∧ type.domain ≠ [] ∧
    ∀ allowed ∈ type.domain, ¬c.Reaches role allowed

/-- Whether the validation of a stream reports the domain of the relation that an operation
makes. -/
def ReportsDomain (c : Catalog) (ops : List Operation) (op : Operation) (r : RelationRecord) :
    Prop :=
  ∃ domain role, (⟨.domainViolation r.name domain r.source role, op.id⟩ : Warning) ∈ validate c ops

/-! ### Reports -/

/-- Domains are reported of the role with which the stream declares the source. -/
theorem reportsDomain_iff {c : Catalog} {ops : List Operation} {op : Operation} (hop : op ∈ ops)
    {r : RelationRecord} (hr : op.relation? = some r) :
    ReportsDomain c ops op r ↔
      ∃ role, declaredRole? ops r.source = some role ∧ c.Bars r.name role := by
  constructor
  · rintro ⟨domain, role, hmem⟩
    rcases List.mem_append.mp hmem with hmem | hmem
    · obtain ⟨surface, first, heq⟩ := finding_of_mem_consolidations _ _ hmem
      cases heq
    · obtain ⟨other, -, hfinding⟩ := List.mem_filterMap.mp hmem
      obtain ⟨finding, hfinding, heq⟩ := Option.map_eq_some_iff.mp hfinding
      obtain ⟨rfl, -⟩ := Warning.mk.inj heq
      obtain ⟨r', hr'⟩ := exists_relation?_of_domainViolation hfinding
      rw [finding?_of_relation? hr'] at hfinding
      obtain ⟨⟨hname, hsource, hrole⟩, type, htype, rfl, hbars⟩ :=
        relationFinding?_eq_domainViolation_iff.mp hfinding
      exact ⟨role, hsource ▸ hrole, type, hname ▸ htype, hbars⟩
  · rintro ⟨role, hrole, type, htype, hbars⟩
    refine ⟨type.domain, role, List.mem_append_right _ (List.mem_filterMap.mpr ⟨op, hop, ?_⟩)⟩
    rw [finding?_of_relation? hr, hrole, relationFinding?_eq_domainViolation_iff.mpr
      ⟨⟨rfl, rfl, rfl⟩, type, htype, rfl, hbars⟩]
    rfl

/-! ### Roles -/

theorem declaredRole?_eq (ops : List Operation) (id : String) :
    declaredRole? ops id =
      ((ops.filterMap Operation.declaration?).lookup id).map (·.role) := by
  rw [lookup_declarations]
  induction ops with
  | nil => rfl
  | cons op rest ih =>
    rw [declaredRole?] at ih ⊢
    rw [List.findSome?_cons, List.find?_cons, Operation.declaresNode, ih]
    by_cases hid : (op.id == id) = true
    · cases hnode : op.node? <;> simp [hid, hnode]
    · simp [hid]

/-- The graph keeps the role of a node, except an empty one. -/
theorem role_node?_eq (ops : List Operation) (id : String) :
    ((Graph.ofOperations ops).node? id).map (·.role) = (declaredRole? ops id).map fun role =>
      if role.isEmpty then individualRole else role := by
  rw [Graph.role_node?, roleIn, declaredRole?_eq, Option.map_map]
  rfl

/-- A node is declared without a role only by a heading. -/
theorem exists_heading_of_declaredRole? {text id : String}
    (h : declaredRole? (operationsOf text) id = some "") :
    ∃ heading, Mention.heading heading ∈ mentions text ∧ heading.nodeId = id ∧
      heading.role = "" := by
  rw [declaredRole?_eq, lookup_declarations] at h
  obtain ⟨record, hrecord, hrole⟩ := Option.map_eq_some_iff.mp h
  obtain ⟨op, hop, hnode⟩ := Option.bind_eq_some_iff.mp hrecord
  have hdeclares := List.find?_some hop
  rw [Operation.declaresNode, Bool.and_eq_true, beq_iff_eq] at hdeclares
  obtain ⟨m, hm, rfl⟩ :=
    exists_mention_of_node? (List.mem_of_find?_eq_some hop) hdeclares.2
  cases m with
  | heading heading =>
    obtain rfl := Option.some.inj hnode
    exact ⟨heading, mem_of_mem_marked _ _ hm, hdeclares.1, hrole⟩
  | root name =>
    obtain rfl := Option.some.inj hnode
    exact absurd hrole (by decide : individualRole ≠ "")
  | item name =>
    obtain rfl := Option.some.inj hnode
    exact absurd hrole (by decide : "class" ≠ "")
  | target relation t =>
    obtain rfl := Option.some.inj hnode
    replace hrole : (if (bookingRelations.lookup relation).isSome then plainAccountRole
      else "class") = "" := hrole
    split_ifs at hrole <;> exact absurd hrole (by decide)

/-- The source of a relation is in the graph. -/
theorem exists_source {text : String} {op : Operation} (hop : op ∈ operationsOf text)
    {r : RelationRecord} (hr : op.relation? = some r) :
    ∃ n, (Graph.ofOperations (operationsOf text)).node? r.source = some n := by
  have hsource : Reference.node r.source ∈ op.references := by
    unfold Operation.relation? at hr
    unfold Operation.references
    cases haction : op.action <;> rw [haction] at hr <;> cases hr
    exact List.mem_cons_of_mem _ List.mem_cons_self
  have hground := grounded_text .empty text
  have hdeclared : r.source ∈ nodeIds (operationsOf text) := by
    rcases List.mem_append.mp (hground.declares (hground.refers op hop _ hsource)) with hid | hid
    · cases hid
    · exact hid
  rw [← Option.isSome_iff_exists, Graph.node?_isSome_iff]
  exact Graph.mem_nodes_iff.mpr hdeclared

/-! ### The graph that is judged -/

/-- Whether the validation of a text reports the domains of the relations whose sources have roles
in the graph that these domains bar, and of no others. -/
def JudgesGraph (c : Catalog) (text : String) : Prop :=
  ∀ op ∈ operationsOf text, ∀ r, op.relation? = some r →
    (ReportsDomain c (operationsOf text) op r ↔
      ∃ n, (Graph.ofOperations (operationsOf text)).node? r.source = some n ∧ c.Bars r.name n.role)

/-- What is reported of a relation and what its source is in the graph. -/
theorem reportsDomain_operationsOf {c : Catalog} {text : String} {op : Operation}
    (hop : op ∈ operationsOf text) {r : RelationRecord} (hr : op.relation? = some r) :
    ∃ n role, (Graph.ofOperations (operationsOf text)).node? r.source = some n ∧
      declaredRole? (operationsOf text) r.source = some role ∧
      n.role = (if role.isEmpty then individualRole else role) ∧
      (ReportsDomain c (operationsOf text) op r ↔ c.Bars r.name role) := by
  obtain ⟨n, hn⟩ := exists_source hop hr
  have hrole := role_node?_eq (operationsOf text) r.source
  rw [hn, Option.map_some] at hrole
  obtain ⟨role, hdeclared, hkept⟩ := Option.map_eq_some_iff.mp hrole.symm
  refine ⟨n, role, hn, hdeclared, hkept.symm, ?_⟩
  rw [reportsDomain_iff hop hr, hdeclared]
  refine ⟨?_, fun hbars => ⟨role, rfl, hbars⟩⟩
  rintro ⟨_, hsame, hbars⟩
  rwa [Option.some.inj hsame]

/-- **Validation judges the graph that is built** exactly when no relation of a source that is
declared without a role is barred for want of a role but not for individuals, or the other way
round. In any text the reports are about the roles with which sources are declared; these are the
roles of the graph but for empty ones, which only headings with blank roles declare. -/
theorem judgesGraph_iff (c : Catalog) (text : String) :
    (JudgesGraph c text ↔ ∀ op ∈ operationsOf text, ∀ r, op.relation? = some r →
      declaredRole? (operationsOf text) r.source = some "" →
        (c.Bars r.name "" ↔ c.Bars r.name individualRole)) ∧
    (∀ op ∈ operationsOf text, ∀ r, op.relation? = some r →
      ∃ n role, (Graph.ofOperations (operationsOf text)).node? r.source = some n ∧
        declaredRole? (operationsOf text) r.source = some role ∧
        n.role = (if role.isEmpty then individualRole else role) ∧
        (ReportsDomain c (operationsOf text) op r ↔ c.Bars r.name role)) ∧
    ∀ id, declaredRole? (operationsOf text) id = some "" →
      ∃ heading, Mention.heading heading ∈ mentions text ∧ heading.nodeId = id ∧
        heading.role = "" := by
  refine ⟨⟨fun h op hop r hr hempty => ?_, fun h op hop r hr => ?_⟩,
    fun op hop r hr => reportsDomain_operationsOf hop hr,
    fun id => exists_heading_of_declaredRole?⟩
  all_goals obtain ⟨n, role, hn, hdeclared, hkept, hreports⟩ :=
    reportsDomain_operationsOf (c := c) hop hr
  · obtain rfl := Option.some.inj (hdeclared.symm.trans hempty)
    rw [← hreports, h op hop r hr, hn]
    simp [hkept]
  · rw [hreports, hn]
    by_cases hempty : role = ""
    · subst hempty
      simp [hkept, h op hop r hr hdeclared]
    · rw [if_neg (by simpa using hempty)] at hkept
      simp [hkept]

/-- An individual whose heading has a blank role is reported not to be one. -/
theorem not_judgesGraph_blank_role : ¬JudgesGraph .default "# a [ ]\n<member_of> b;" := by
  intro h
  have hjudges := h
    { id := "rel_a_member_of_b"
      action := .addRelation {
        source := "a", target := "b", name := "member_of", targetSurface := some "b" } }
    (by decide +kernel) _ rfl
  obtain ⟨n, hn, type, htype, -, hbars⟩ := hjudges.mp ⟨["individual"], "", by decide +kernel⟩
  have hrole : ((Graph.ofOperations (operationsOf "# a [ ]\n<member_of> b;")).node? "a").map
      (·.role) = some individualRole := by decide +kernel
  have hdomain : (Catalog.default.relationType? "member_of").map (·.domain) =
      some [individualRole] := by decide +kernel
  rw [hn, Option.map_some, Option.some.injEq] at hrole
  rw [htype, Option.map_some, Option.some.injEq] at hdomain
  refine hbars individualRole (hdomain ▸ List.mem_singleton_self _) ?_
  rw [hrole]
  exact Relation.ReflTransGen.refl

end NoteGraph.Schema
