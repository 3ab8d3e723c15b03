import Mathlib.Data.List.Pairwise
import NoteGraph.Proofs.Graph.Assembly
import NoteGraph.Proofs.Operation.Stream

/-!
# The records of a text

The graph of a text keeps every record as it is written, except where records of
different morphs clash: they are given one identifier because their content is the same,
though they do not join the same nodes.
-/

namespace NoteGraph

namespace Operation

/-- The nodes that a record joins: its source and, if it is a relation, its target. -/
def ends? (op : Operation) : Option (String × Option String) :=
  match op.action with
  | .addRelation r => some (r.source, some r.target)
  | .addAttribute r => some (r.source, none)
  | .applyFunction r => some (r.source, none)
  | _ => none

/-- Two records of different morphs that share an identifier and have the same content, but
do not join the same nodes. -/
def Clashes (a b : Operation) : Prop :=
  a.id = b.id ∧ a.ends? ≠ b.ends? ∧ ∃ morph morph' content,
    a.claimed? = some (morph, content) ∧ b.claimed? = some (morph', content) ∧ morph ≠ morph'

theorem claimed?_cases {op : Operation} {morph : Option String} {content : Signature}
    (h : op.claimed? = some (morph, content)) :
    (∃ r, op.action = .addRelation r ∧ content = .relation r.name r.weight) ∨
      (∃ r, op.action = .addAttribute r ∧
        content = .attribute r.name r.value r.unit r.adverb r.modality r.quantifier) ∨
      ∃ r, op.action = .applyFunction r ∧ content = .function r.name := by
  unfold claimed? at h
  split at h
  · rename_i r haction
    obtain ⟨-, rfl⟩ := Prod.mk.inj (Option.some.inj h)
    exact Or.inl ⟨r, haction, rfl⟩
  · rename_i r haction
    obtain ⟨-, rfl⟩ := Prod.mk.inj (Option.some.inj h)
    exact Or.inr (Or.inl ⟨r, haction, rfl⟩)
  · rename_i r haction
    obtain ⟨-, rfl⟩ := Prod.mk.inj (Option.some.inj h)
    exact Or.inr (Or.inr ⟨r, haction, rfl⟩)
  · cases h

theorem makes_nothing {op : Operation} (h : op.claimed? = none) :
    op.edge? = none ∧ op.attribute? = none := by
  unfold claimed? at h
  unfold edge? attribute?
  cases haction : op.action <;> rw [haction] at h <;> first | exact ⟨rfl, rfl⟩ | cases h

/-- Records of one identifier and the same content are the same if they join the same
nodes. -/
theorem ends?_eq_iff {a b : Operation} {morph morph' : Option String} {content : Signature}
    (hid : a.id = b.id) (ha : a.claimed? = some (morph, content))
    (hb : b.claimed? = some (morph', content)) :
    a.ends? = b.ends? ↔ (∀ e ∈ a.edge?, ∀ e' ∈ b.edge?, e = e') ∧
      ∀ v ∈ a.attribute?, ∀ v' ∈ b.attribute?, v = v' := by
  rcases claimed?_cases ha with ⟨r, hr, rfl⟩ | ⟨r, hr, rfl⟩ | ⟨r, hr, rfl⟩
  · rcases claimed?_cases hb with ⟨r', hr', hc⟩ | ⟨r', -, hc⟩ | ⟨r', -, hc⟩
    · injection hc with hname hweight
      simp [ends?, edge?, attribute?, hr, hr', hid, hname, hweight]
    · cases hc
    · cases hc
  · rcases claimed?_cases hb with ⟨r', -, hc⟩ | ⟨r', hr', hc⟩ | ⟨r', -, hc⟩
    · cases hc
    · injection hc
      simp [ends?, edge?, attribute?, Graph.attributeOf, *]
    · cases hc
  · rcases claimed?_cases hb with ⟨r', -, hc⟩ | ⟨r', -, hc⟩ | ⟨r', hr', hc⟩
    · cases hc
    · cases hc
    · injection hc with hname
      simp [ends?, edge?, attribute?, Graph.attributeOfFunction, hr, hr', hid, hname]

instance : Std.Symm Apart where
  symm a b h := by
    intro morph content morph' content' hb ha hid
    obtain ⟨hmorph, hcontent⟩ := h morph' content' morph content ha hb hid.symm
    exact ⟨hmorph.symm, hcontent.symm⟩

end Operation

/-- **Records are kept** exactly where none clash: the graph of a text has exactly one edge
or attribute for each record, with the nodes and the content that are written, if and only
if no two records of different morphs share an identifier without joining the same
nodes. -/
theorem Graph.forall_keeps_operationsOf_iff (text : String) :
    (∀ op ∈ operationsOf text, (Graph.ofOperations (operationsOf text)).Keeps op) ↔
      ∀ a ∈ operationsOf text, ∀ b ∈ operationsOf text, ¬a.Clashes b := by
  rw [Graph.forall_keeps_iff]
  constructor
  · rintro h a ha b hb ⟨hid, hends, morph, morph', content, hca, hcb, -⟩
    exact hends ((Operation.ends?_eq_iff hid hca hcb).mpr (h a ha b hb hid))
  · intro h a ha b hb hid
    by_cases hab : a = b
    · subst hab
      exact ⟨fun e he e' he' => Option.mem_unique he he',
        fun v hv v' hv' => Option.mem_unique hv hv'⟩
    · have hapart := (pairwise_apart_operationsOf text).forall ha hb hab
      cases hca : a.claimed? with
      | none =>
        obtain ⟨hedge, hattribute⟩ := Operation.makes_nothing hca
        rw [hedge, hattribute]
        exact ⟨fun e he => (nomatch he), fun v hv => (nomatch hv)⟩
      | some claim =>
        cases hcb : b.claimed? with
        | none =>
          obtain ⟨hedge, hattribute⟩ := Operation.makes_nothing hcb
          rw [hedge, hattribute]
          exact ⟨fun e he e' he' => (nomatch he'), fun v hv v' hv' => (nomatch hv')⟩
        | some claim' =>
          obtain ⟨morph, content⟩ := claim
          obtain ⟨morph', content'⟩ := claim'
          obtain ⟨hmorph, rfl⟩ := hapart _ _ _ _ hca hcb hid
          have hends : a.ends? = b.ends? := by
            by_contra hne
            exact h a ha b hb ⟨hid, hne, morph, morph', content, hca, hcb, hmorph⟩
          exact (Operation.ends?_eq_iff hid hca hcb).mp hends

/-- The second relation to `b` is given a number, and then the relation of the morph, whose
target has the same number in its name, is given the same identifier. -/
theorem not_keeps_numbered_target :
    let ops := operationsOf
      "# t [Transition]\n<has prior_state> b;\n<has prior_state> b;\n## m\n<has prior_state> b 2;"
    ¬∀ op ∈ ops, (Graph.ofOperations ops).Keeps op := by
  decide +kernel

end NoteGraph
