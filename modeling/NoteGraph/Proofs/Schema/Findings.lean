import NoteGraph.Proofs.Schema.Ancestors
import NoteGraph.Schema.Validation

/-!
# What a validation finds

A validation reports spellings that fall together first, and then what it finds about one
operation after another. What it can find about an operation depends on its action
(`finding?_cases`), and it finds that a relation leaves the domain of its type exactly when the
type has one that the role of the source does not reach.
-/

namespace NoteGraph.Schema

/-! ### Spellings -/

theorem finding_of_mem_consolidations {w : Warning} (spellings : List (String × String)) :
    ∀ seen, w ∈ consolidations seen spellings →
      ∃ surface first, w.finding = .surfaceConsolidation surface first := by
  induction spellings with
  | nil => exact fun _ h => by cases h
  | cons spelling rest ih =>
    intro seen h
    rw [consolidations] at h
    split_ifs at h
    · exact ih _ h
    · cases hfirst : seen.lookup spelling.1 with
      | none =>
        rw [hfirst] at h
        exact ih _ h
      | some first =>
        rw [hfirst] at h
        rcases List.mem_cons.mp h with rfl | h
        · exact ⟨_, _, rfl⟩
        · exact ih _ h

/-! ### Operations -/

/-- The findings that an operation can give. -/
theorem finding?_cases {c : Catalog} {ops : List Operation} {op : Operation} {finding : Finding}
    (h : finding? c ops op = some finding) :
    (∃ record, op.action = .addNode record ∧
        finding = .unknownNodeType record.role (c.nodeTypes.map (·.name))) ∨
      (∃ record, op.action = .addAttribute record ∧
        (finding = .unknownAttribute record.name ∨
          ∃ allowed, finding = .invalidValue record.value record.name allowed)) ∨
      (∃ record, op.action = .addRelation record ∧
        relationFinding? c record (declaredRole? ops record.source) = some finding) ∨
      ∃ record, op.action = .applyFunction record ∧ finding = .unknownFunction record.name := by
  unfold finding? at h
  cases haction : op.action with
  | addNode record =>
    simp only [haction] at h
    split_ifs at h
    exact .inl ⟨record, rfl, (Option.some.inj h).symm⟩
  | addAttribute record =>
    simp only [haction] at h
    refine .inr (.inl ⟨record, rfl, ?_⟩)
    cases htype : c.attributeType? record.name with
    | none =>
      rw [htype] at h
      exact .inl (Option.some.inj h).symm
    | some type =>
      rw [htype] at h
      obtain ⟨allowed, -, h⟩ := Option.bind_eq_some_iff.mp h
      split_ifs at h
      exact .inr ⟨allowed, (Option.some.inj h).symm⟩
  | addRelation record =>
    simp only [haction] at h
    exact .inr (.inr (.inl ⟨record, rfl, h⟩))
  | applyFunction record =>
    simp only [haction] at h
    split_ifs at h
    exact .inr (.inr (.inr ⟨record, rfl, (Option.some.inj h).symm⟩))
  | addMorph record => rw [haction] at h; cases h
  | updateField record => rw [haction] at h; cases h
  | setDescription text => rw [haction] at h; cases h
  | setCurrency text => rw [haction] at h; cases h

theorem finding?_of_relation? {c : Catalog} {ops : List Operation} {op : Operation}
    {r : RelationRecord} (hr : op.relation? = some r) :
    finding? c ops op = relationFinding? c r (declaredRole? ops r.source) := by
  unfold Operation.relation? at hr
  unfold finding?
  cases haction : op.action <;> rw [haction] at hr <;> cases hr
  rfl

/-! ### Relations -/

theorem relationFinding?_eq_domainViolation_iff {c : Catalog} {r : RelationRecord}
    {declared : Option String} {name source role : String} {domain : List String} :
    relationFinding? c r declared = some (.domainViolation name domain source role) ↔
      (name = r.name ∧ source = r.source ∧ declared = some role) ∧
        ∃ type, c.relationType? r.name = some type ∧ type.domain = domain ∧ domain ≠ [] ∧
          ∀ allowed ∈ domain, ¬c.Reaches role allowed := by
  unfold relationFinding?
  cases htype : c.relationType? r.name with
  | none => simp
  | some type =>
    cases declared with
    | none => simp
    | some declared =>
      by_cases hempty : type.domain.isEmpty = true
      · simp only [hempty, if_true, reduceCtorEq, false_iff]
        rintro ⟨-, type', htype', rfl, hne, -⟩
        obtain rfl := Option.some.inj htype'
        exact hne (List.isEmpty_iff.mp hempty)
      · simp only [if_neg hempty]
        have hany : type.domain.any (c.roleAncestors declared).contains = true ↔
            ∃ allowed ∈ type.domain, c.Reaches declared allowed := by
          simp [List.any_eq_true, Catalog.mem_roleAncestors_iff]
        by_cases hreaches : ∃ allowed ∈ type.domain, c.Reaches declared allowed
        · rw [if_pos (hany.mpr hreaches)]
          simp only [reduceCtorEq, false_iff]
          rintro ⟨⟨-, -, hdeclared⟩, type', htype', rfl, -, hbars⟩
          obtain rfl := Option.some.inj htype'
          obtain rfl := Option.some.inj hdeclared
          obtain ⟨allowed, hallowed, hreach⟩ := hreaches
          exact hbars allowed hallowed hreach
        · rw [if_neg (mt hany.mp hreaches)]
          push Not at hreaches
          constructor
          · intro h
            cases h
            exact ⟨⟨rfl, rfl, rfl⟩, type, rfl, rfl, fun h => hempty (List.isEmpty_iff.mpr h),
              hreaches⟩
          · rintro ⟨⟨rfl, rfl, hdeclared⟩, type', htype', rfl, -, -⟩
            obtain rfl := Option.some.inj htype'
            obtain rfl := Option.some.inj hdeclared
            rfl

theorem relationFinding?_ne_surfaceConsolidation {c : Catalog} {r : RelationRecord}
    {declared : Option String} {surface first : String} :
    relationFinding? c r declared ≠ some (.surfaceConsolidation surface first) := by
  unfold relationFinding?
  cases c.relationType? r.name with
  | none => simp
  | some type =>
    cases declared with
    | none => simp
    | some role =>
      simp only
      split_ifs <;> simp

/-- Only relations are reported for domains. -/
theorem exists_relation?_of_domainViolation {c : Catalog} {ops : List Operation} {op : Operation}
    {name source role : String} {domain : List String}
    (h : finding? c ops op = some (.domainViolation name domain source role)) :
    ∃ r, op.relation? = some r := by
  rcases finding?_cases h with ⟨_, -, h⟩ | ⟨_, -, h | ⟨_, h⟩⟩ | ⟨r, haction, -⟩ | ⟨_, -, h⟩
  · cases h
  · cases h
  · cases h
  · exact ⟨r, by rw [Operation.relation?, haction]⟩
  · cases h

/-- What is found about operations is never that spellings fall together. -/
theorem finding?_ne_surfaceConsolidation {c : Catalog} {ops : List Operation} {op : Operation}
    {surface first : String} : finding? c ops op ≠ some (.surfaceConsolidation surface first) := by
  intro h
  rcases finding?_cases h with ⟨_, -, h⟩ | ⟨_, -, h | ⟨_, h⟩⟩ | ⟨r, -, h⟩ | ⟨_, -, h⟩
  · cases h
  · cases h
  · cases h
  · exact relationFinding?_ne_surfaceConsolidation h
  · cases h

end NoteGraph.Schema
