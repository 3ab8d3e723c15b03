import NoteGraph.Operation.OfText
import NoteGraph.Proofs.Keyed
import NoteGraph.Proofs.Schema.Findings

/-!
# Reports of spellings

A stream may spell a node in several ways. The validation reports each of them but the first once,
where it first comes up, and names the first one beside it; all such reports stand in front of
everything else that is found. What carries the induction over the spellings is that the reports
made so far are those of the spellings seen so far (`reportsOf_append_filter`): a spelling that was
seen before adds nothing to either side, and a new one adds its report unless it is the first.
-/

namespace NoteGraph

namespace Schema

/-! ### Reports of one node -/

/-- The report that a spelling falls together with the first one of its node. -/
def reportOf (id first surface : String) : Warning := ⟨.surfaceConsolidation surface first, id⟩

/-- The reports of a node with some spellings: one for each of them but the first. -/
def reportsOf (id : String) : List String → List Warning
  | [] => []
  | first :: others => others.map (reportOf id first)

theorem reportsOf_concat {id first : String} {spelled : List String}
    (h : spelled.head? = some first) (surface : String) :
    reportsOf id (spelled ++ [surface]) = reportsOf id spelled ++ [reportOf id first surface] := by
  obtain ⟨others, rfl⟩ := List.head?_eq_some_iff.mp h
  rw [List.cons_append, reportsOf, List.map_append, reportsOf, List.map_singleton]

theorem consolidations_cons_of_mem {spelling : String × String} {seen : List (String × String)}
    (h : spelling ∈ seen) (rest : List (String × String)) :
    consolidations seen (spelling :: rest) = consolidations seen rest := by
  rw [consolidations, if_pos (List.contains_iff_mem.mpr h)]

/-- A new spelling is reported beside the first one of its node, if it is not itself the first. -/
theorem consolidations_cons_of_notMem {node surface : String} {seen : List (String × String)}
    (h : (node, surface) ∉ seen) (rest : List (String × String)) :
    consolidations seen ((node, surface) :: rest) =
      ((seen.lookup node).map fun first => reportOf node first surface).toList ++
        consolidations (seen ++ [(node, surface)]) rest := by
  rw [consolidations, if_neg (mt List.contains_iff_mem.mp h)]
  cases seen.lookup node <;> rfl

/-- The reports of a node are those of the spellings seen so far, and then those that are made. -/
theorem reportsOf_append_filter (id : String) (spellings : List (String × String)) :
    ∀ seen, reportsOf id (Keyed.valuesOf seen id).eraseDups ++
        (consolidations seen spellings).filter (·.id == id) =
      reportsOf id (Keyed.valuesOf (seen ++ spellings) id).eraseDups := by
  induction spellings with
  | nil =>
    intro seen
    rw [consolidations, List.filter_nil, List.append_nil, List.append_nil]
  | cons spelling rest ih =>
    obtain ⟨node, surface⟩ := spelling
    intro seen
    by_cases hseen : (node, surface) ∈ seen
    · rw [consolidations_cons_of_mem hseen, ih, Keyed.valuesOf_append, Keyed.valuesOf_append]
      by_cases hid : node = id
      · subst hid
        rw [Keyed.valuesOf_cons_self, eraseDups_insert (Keyed.mem_valuesOf_iff.mpr hseen)]
      · rw [Keyed.valuesOf_cons_of_ne hid]
    · have hmore := ih (seen ++ [(node, surface)])
      rw [← List.append_cons] at hmore
      rw [consolidations_cons_of_notMem hseen, List.filter_append, ← List.append_assoc, ← hmore,
        Keyed.valuesOf_append]
      congr 1
      by_cases hid : node = id
      · subst hid
        have hnew : surface ∉ Keyed.valuesOf seen node := mt Keyed.mem_valuesOf_iff.mp hseen
        have hfirst := head?_eraseDups (Keyed.valuesOf seen node)
        have hone : Keyed.valuesOf [(node, surface)] node = [surface] := Keyed.valuesOf_cons_self
        rw [Keyed.head?_valuesOf] at hfirst
        rw [hone, eraseDups_concat, if_neg hnew]
        cases hlookup : seen.lookup node with
        | none =>
          -- the first spelling of the node
          rw [hlookup, List.head?_eq_none_iff] at hfirst
          rw [hfirst]
          rfl
        | some first =>
          rw [hlookup] at hfirst
          rw [reportsOf_concat hfirst, Option.map_some, Option.toList_some,
            List.filter_singleton]
          simp [reportOf]
      · have hnone : Keyed.valuesOf [(node, surface)] id = [] := Keyed.valuesOf_cons_of_ne hid
        rw [hnone, List.append_nil]
        cases seen.lookup node <;> simp [reportOf, hid]

/-- A spelling that comes again is not reported again. -/
theorem consolidations_insert (spelling : String × String) (after before : List (String × String)) :
    ∀ seen, spelling ∈ seen ++ before →
      consolidations seen (before ++ spelling :: after) =
        consolidations seen (before ++ after) := by
  induction before with
  | nil =>
    intro seen h
    rw [List.append_nil] at h
    exact consolidations_cons_of_mem h after
  | cons first before ih =>
    intro seen h
    rw [List.cons_append, List.cons_append]
    by_cases hseen : first ∈ seen
    · have hmem : spelling ∈ seen ++ before := by
        rcases List.mem_append.mp h with h | h
        · exact List.mem_append_left _ h
        · rcases List.mem_cons.mp h with rfl | h
          · exact List.mem_append_left _ hseen
          · exact List.mem_append_right _ h
      rw [consolidations_cons_of_mem hseen, consolidations_cons_of_mem hseen, ih seen hmem]
    · rw [List.append_cons] at h
      rw [consolidations_cons_of_notMem hseen, consolidations_cons_of_notMem hseen, ih _ h]

/-! ### Reports of a stream -/

section Stream

variable (c : Catalog) (ops : List Operation)

/-- How a stream spells a node, in the order of the stream. -/
def spellingsOf (id : String) : List String := Keyed.valuesOf (ops.filterMap spelling?) id

/-- What a validation reports about spellings. -/
def reports : List Warning :=
  (validate c ops).filter (·.finding.kind == "surface_consolidation")

/-- The findings about the operations of a stream one by one. -/
def otherWarnings : List Warning :=
  ops.filterMap fun op => (finding? c ops op).map fun finding => ⟨finding, op.id⟩

theorem kind_eq_iff {finding : Finding} : finding.kind = "surface_consolidation" ↔
    ∃ surface first, finding = .surfaceConsolidation surface first := by
  constructor
  · cases finding with
    | surfaceConsolidation surface first => exact fun _ => ⟨surface, first, rfl⟩
    | _ => exact fun h => absurd h (by simp [Finding.kind])
  · rintro ⟨surface, first, rfl⟩
    rfl

theorem kind_of_mem_otherWarnings {c : Catalog} {ops : List Operation} {w : Warning}
    (h : w ∈ otherWarnings c ops) : w.finding.kind ≠ "surface_consolidation" := by
  obtain ⟨op, -, h⟩ := List.mem_filterMap.mp h
  obtain ⟨finding, hfinding, rfl⟩ := Option.map_eq_some_iff.mp h
  rw [Ne, kind_eq_iff]
  rintro ⟨surface, first, rfl⟩
  exact finding?_ne_surfaceConsolidation hfinding

theorem reports_eq : reports c ops = consolidations [] (ops.filterMap spelling?) := by
  have hreports : ∀ w ∈ consolidations [] (ops.filterMap spelling?),
      (w.finding.kind == "surface_consolidation") = true := fun w hw =>
    beq_iff_eq.mpr (kind_eq_iff.mpr (finding_of_mem_consolidations _ _ hw))
  have hothers : ∀ w ∈ otherWarnings c ops,
      ¬(w.finding.kind == "surface_consolidation") = true := fun w hw =>
    mt beq_iff_eq.mp (kind_of_mem_otherWarnings hw)
  rw [reports, validate, List.filter_append, List.filter_eq_self.mpr hreports, ← otherWarnings,
    List.filter_eq_nil_iff.mpr hothers, List.append_nil]

theorem validate_eq_reports_append : validate c ops = reports c ops ++ otherWarnings c ops := by
  rw [reports_eq]
  rfl

theorem filter_reports (id : String) :
    (reports c ops).filter (·.id == id) = reportsOf id (spellingsOf ops id).eraseDups := by
  rw [reports_eq, spellingsOf]
  exact reportsOf_append_filter id (ops.filterMap spelling?) []

theorem length_reportsOf (id : String) (spelled : List String) :
    (reportsOf id spelled).length = spelled.length - 1 := by
  cases spelled with
  | nil => rfl
  | cons first others => exact List.length_map _

theorem count_reportsOf {id surface first : String} {spelled : List String}
    (hn : spelled.Nodup) : (reportsOf id spelled).count (reportOf id first surface) =
      if spelled.head? = some first ∧ surface ∈ spelled ∧ surface ≠ first then 1 else 0 := by
  cases spelled with
  | nil => rfl
  | cons head others =>
    obtain ⟨hhead, hothers⟩ := List.nodup_cons.mp hn
    have hinjective : Function.Injective (reportOf id head) := fun a b h => by
      obtain ⟨h, -⟩ := Warning.mk.inj h
      exact (Finding.surfaceConsolidation.inj h).1
    simp only [reportsOf, List.head?_cons, Option.some.injEq]
    by_cases hfirst : head = first
    · subst hfirst
      rw [List.count_map_of_injective _ _ hinjective, hothers.count]
      refine if_congr ?_ rfl rfl
      rw [List.mem_cons]
      constructor
      · intro h
        refine ⟨rfl, .inr h, ?_⟩
        rintro rfl
        exact hhead h
      · rintro ⟨-, h, hne⟩
        exact h.resolve_left hne
    · rw [if_neg fun h => hfirst h.1, List.count_eq_zero, List.mem_map]
      rintro ⟨other, -, h⟩
      obtain ⟨h, -⟩ := Warning.mk.inj h
      exact hfirst (Finding.surfaceConsolidation.inj h).2

/-- The reports about spellings of a validation count the spellings of every node. -/
structure CountsSpellings : Prop where
  /-- The different spellings of a node are reported in the order in which they first come up,
  all but the first. -/
  in_order : ∀ id, (reports c ops).filter (·.id == id) =
    reportsOf id (spellingsOf ops id).eraseDups
  /-- There is one report for each spelling that is not the first, and none for the first. -/
  once : ∀ id first surface, (validate c ops).count (reportOf id first surface) =
    if (spellingsOf ops id).head? = some first ∧ surface ∈ spellingsOf ops id ∧ surface ≠ first
      then 1 else 0
  number : ∀ id, ((reports c ops).filter (·.id == id)).length =
    (spellingsOf ops id).toFinset.card - 1
  /-- An operation that comes again, wherever it does, changes no report. -/
  repeated : ∀ before op after, ops = before ++ op :: after → op ∈ before →
    reports c ops = reports c (before ++ after)
  /-- Reports about spellings stand in front of everything else. -/
  in_front : ∃ others, validate c ops = reports c ops ++ others ∧
    ∀ w ∈ others, w.finding.kind ≠ "surface_consolidation"

theorem reports_insert {op : Operation} {before : List Operation} (h : op ∈ before)
    (after : List Operation) :
    reports c (before ++ op :: after) = reports c (before ++ after) := by
  rw [reports_eq, reports_eq, List.filterMap_append, List.filterMap_append]
  cases hspelling : spelling? op with
  | none => rw [List.filterMap_cons_none hspelling]
  | some spelling =>
    have hmem : spelling ∈ before.filterMap spelling? := List.mem_filterMap.mpr ⟨op, h, hspelling⟩
    rw [List.filterMap_cons_some hspelling, consolidations_insert]
    rwa [List.nil_append]

theorem count_validate (id first surface : String) :
    (validate c ops).count (reportOf id first surface) =
      (reportsOf id (spellingsOf ops id).eraseDups).count (reportOf id first surface) := by
  have hid : ((reportOf id first surface).id == id) = true := beq_self_eq_true id
  have hkind : ((reportOf id first surface).finding.kind == "surface_consolidation") = true := rfl
  rw [← filter_reports c, List.count_filter (p := fun w : Warning => w.id == id) hid, reports,
    List.count_filter (p := fun w : Warning => w.finding.kind == "surface_consolidation") hkind]

/-- **Reports count spellings**: a node that a stream spells in several ways is reported once for
each of them but the first, in the order in which they first come up. Operations that come again
add no report, and all reports about spellings stand in front of the other warnings. -/
theorem countsSpellings : CountsSpellings c ops where
  in_order := filter_reports c ops
  once id first surface := by
    rw [count_validate, count_reportsOf (nodup_eraseDups _)]
    simp only [head?_eraseDups, List.mem_eraseDups]
  number id := by
    rw [filter_reports, length_reportsOf, length_eraseDups]
  repeated before op after heq hop := by
    rw [heq, reports_insert c hop after]
  in_front := ⟨otherWarnings c ops, validate_eq_reports_append c ops, fun _ hw =>
    kind_of_mem_otherWarnings hw⟩

end Stream

/-- A heading and targets that spell a node in three ways, one of them twice. -/
example : (reports .default (operationsOf
      "# Water [Molecule]\n# Ice [class]\n<is_a> water;\n<is_a> water!;\n<is_a> water;")).map
    Warning.message =
      ["\"water\" and \"Water\" both resolve to node \"water\"",
       "\"water!\" and \"Water\" both resolve to node \"water\""] := by
  decide +kernel

end Schema

end NoteGraph
