import NoteGraph.Operation.OfText
import NoteGraph.Proofs.Graph.Links
import NoteGraph.Proofs.Graph.Registry

/-!
# What a registry shows

Whether a record is visible under a morph is said twice: by the record, which has the morph
among its own, and by the morph, which lists the record. A registry goes by what the morphs
list. In an assembled graph this is what the records say, as the two are linked both ways, but
only if no two morphs share an identifier: a registry knows the last of these alone.

Main statement: the registry of an assembled graph shows each record under the morphs of this
record, and of candidates that repeat a record the first (`Registry.shows_ofOperations`).
-/

namespace NoteGraph

/-- Two lists have a common entry. -/
def meets (names others : List String) : Bool := names.any others.contains

theorem meets_iff {names others : List String} :
    meets names others = true ↔ ∃ name ∈ others, name ∈ names := by
  simp [meets, and_comm]

/-- A filter and an index show each of some records under its own morphs: what is filtered are
the records with a morph in common with the given ones, and of candidates that repeat a record
the first. -/
structure Shows {α : Type} (idOf : α → String) (morphIdsOf : α → List String)
    (records : List α) (filter : List α → List String → List α)
    (morphsOf : String → List String) : Prop where
  filter_records : ∀ morphIds,
    filter records morphIds = records.filter fun a => meets (morphIdsOf a) morphIds
  filter_candidates : ∀ candidates morphIds, filter candidates morphIds =
    (candidates.filter fun a => records.any fun b =>
      idOf b == idOf a && meets (morphIdsOf b) morphIds).eraseDupsBy fun a b => idOf a == idOf b
  mem_morphsOf : ∀ a ∈ records, ∀ morphId,
    morphId ∈ morphsOf (idOf a) ↔ morphId ∈ morphIdsOf a

/-! ### Filtering -/

section Filtering

variable {α : Type} (idOf : α → String)

/-- What is kept are the first of the visible candidates that were not seen. -/
theorem Registry.keepVisible_eq (visible : List String) (candidates : List α) :
    ∀ seen, keepVisible idOf visible seen candidates =
      (candidates.filter fun a => idOf a ∈ visible ∧ idOf a ∉ seen).eraseDupsBy
        fun a b => idOf a == idOf b := by
  induction candidates with
  | nil => exact fun _ => rfl
  | cons a rest ih =>
    intro seen
    by_cases h : idOf a ∈ visible ∧ idOf a ∉ seen
    · rw [keepVisible, if_pos (by simpa using h), ih, List.filter_cons_of_pos (by simpa using h),
        List.eraseDupsBy_cons, List.filter_filter]
      congr 2
      refine List.filter_congr fun b _ => ?_
      by_cases hid : idOf b = idOf a <;> simp [hid]
    · rw [keepVisible, if_neg (by simpa using h), ih, List.filter_cons_of_neg (by simpa using h)]

/-- Records of distinct identifiers are all the first of theirs. -/
theorem eraseDupsBy_of_nodup {records : List α} (h : (records.map idOf).Nodup) :
    (records.eraseDupsBy fun a b => idOf a == idOf b) = records := by
  induction records with
  | nil => rfl
  | cons a rest ih =>
    rw [List.map_cons, List.nodup_cons] at h
    have hrest : (rest.filter fun b => (idOf b == idOf a) = false) = rest := by
      refine List.filter_eq_self.mpr fun b hb => ?_
      have hne : idOf b ≠ idOf a := fun heq => h.1 (heq ▸ List.mem_map_of_mem hb)
      simp [hne]
    rw [List.eraseDupsBy_cons, hrest, ih h.2]

/-- Of records of distinct identifiers only a record itself has its identifier. -/
theorem exists_id_eq_iff {idOf : α → String} {records : List α} (h : (records.map idOf).Nodup)
    {a : α} (ha : a ∈ records) {p : α → Prop} :
    (∃ b ∈ records, idOf b = idOf a ∧ p b) ↔ p a := by
  constructor
  · rintro ⟨b, hb, heq, hp⟩
    rwa [← List.inj_on_of_nodup_map h hb ha heq]
  · exact fun hp => ⟨a, ha, rfl, hp⟩

end Filtering

/-! ### Two ways to find a link -/

/-- Registrations of different morphs are all the latest of theirs. -/
theorem mem_latestKeys_iff {keysOf : Morph → List String} {ms : List Morph}
    (hn : (ms.map (·.morphId)).Nodup) {morphId key : String} :
    key ∈ latestKeys keysOf ms morphId ↔ ∃ m ∈ ms, m.morphId = morphId ∧ key ∈ keysOf m := by
  constructor
  · intro h
    cases hm : latest? ms morphId with
    | none => simp [latestKeys, hm] at h
    | some m =>
      refine ⟨m, mem_of_latest? hm, morphId_of_latest? hm, ?_⟩
      simpa [latestKeys, hm] using h
  · rintro ⟨m, hm, rfl, hkey⟩
    obtain ⟨m', hm'⟩ := exists_latest? hm
    obtain rfl := List.inj_on_of_nodup_map hn hm (mem_of_latest? hm') (morphId_of_latest? hm').symm
    simpa [latestKeys, hm'] using hkey

namespace IsLinked

variable {kind : RecordKind} {morphs : List Morph} {links : Links}

/-- A record has a morph exactly if the morph lists it. -/
theorem has_iff (h : IsLinked kind morphs links) {id morphId : String} :
    links.Has id morphId ↔ ∃ m ∈ morphs, m.morphId = morphId ∧ id ∈ m.listed kind := by
  constructor
  · rintro ⟨link, hlink, rfl, hmorph⟩
    exact (h.joined link hlink).2 morphId hmorph
  · rintro ⟨m, hm, rfl, hid⟩
    exact (h.listed m hm).2 id hid

variable {α : Type} {idOf : α → String} {morphIdsOf : α → List String} {records : List α}
  {x : MorphIndex} {listedOf : String → List String}

/-- Records that are linked to the registered morphs are shown under their own. -/
theorem shows (h : IsLinked kind morphs (records.map fun a => (idOf a, morphIdsOf a)))
    (hn : (morphs.map (·.morphId)).Nodup) (hx : x.Indexes (·.listed kind) morphs)
    (hlistedOf : ∀ morphId, listedOf morphId = latestKeys (·.listed kind) morphs morphId) :
    Shows idOf morphIdsOf records (fun candidates morphIds =>
      Registry.keepVisible idOf (morphIds.flatMap listedOf) [] candidates) x.get := by
  have hids : (records.map idOf).Nodup := by
    have hdistinct := h.distinct
    rwa [List.map_map] at hdistinct
  have hlisted (id morphId : String) : id ∈ latestKeys (·.listed kind) morphs morphId ↔
      ∃ a ∈ records, idOf a = id ∧ morphId ∈ morphIdsOf a := by
    rw [mem_latestKeys_iff hn, ← h.has_iff]
    simp [Links.Has]
  have hcandidates : ∀ candidates morphIds,
      Registry.keepVisible idOf (morphIds.flatMap listedOf) [] candidates =
        (candidates.filter fun a => records.any fun b =>
          idOf b == idOf a && meets (morphIdsOf b) morphIds).eraseDupsBy
            fun a b => idOf a == idOf b := by
    intro candidates morphIds
    rw [Registry.keepVisible_eq]
    congr 1
    refine List.filter_congr fun a _ => Bool.eq_iff_iff.mpr ?_
    simp only [decide_eq_true_eq, List.mem_flatMap, hlistedOf, hlisted, List.not_mem_nil,
      not_false_eq_true, and_true, List.any_eq_true, Bool.and_eq_true, beq_iff_eq, meets_iff]
    constructor
    · rintro ⟨morphId, hmorphId, b, hb, heq, hmem⟩
      exact ⟨b, hb, heq, morphId, hmorphId, hmem⟩
    · rintro ⟨b, hb, heq, morphId, hmorphId, hmem⟩
      exact ⟨morphId, hmorphId, b, hb, heq, hmem⟩
  refine ⟨fun morphIds => ?_, hcandidates, fun a ha morphId => ?_⟩
  · have hfilter : (records.filter fun a => records.any fun b =>
        idOf b == idOf a && meets (morphIdsOf b) morphIds) =
          records.filter fun a => meets (morphIdsOf a) morphIds := by
      refine List.filter_congr fun a ha => Bool.eq_iff_iff.mpr ?_
      simp only [List.any_eq_true, Bool.and_eq_true, beq_iff_eq]
      exact exists_id_eq_iff hids ha
    rw [hcandidates, hfilter]
    exact eraseDupsBy_of_nodup idOf ((List.filter_sublist.map idOf).nodup hids)
  · rw [hx.mem_get, hlisted]
    exact exists_id_eq_iff hids ha

end IsLinked

/-! ### The registry of a graph -/

namespace Registry

theorem registers_ofGraph (ops : List Operation) :
    (ofGraph (Graph.ofOperations ops)).Registers (Graph.ofOperations ops).morphs := by
  have hmorphs : ((Graph.ofOperations ops).nodes.flatMap fun n =>
      n.morphs.map fun m => { m with nodeId := n.id }) = (Graph.ofOperations ops).morphs := by
    refine List.flatMap_congr fun n hn => ?_
    conv_rhs => rw [← List.map_id n.morphs]
    refine List.map_congr_left fun m hm => ?_
    rw [← Graph.nodeId_of_mem_morphs hn hm]
    rfl
  rw [ofGraph, hmorphs]
  exact registers_foldl_add _

/-- **Visibility**: the registry of a graph shows the records of the graph as they say
themselves, if its morphs have different identifiers. -/
theorem shows_ofOperations (ops : List Operation)
    (hn : ((Graph.ofOperations ops).morphs.map (·.morphId)).Nodup) :
    let g := Graph.ofOperations ops
    let r := ofGraph g
    Shows Edge.id Edge.morphIds g.edges r.filterRelations r.morphsOfRelation ∧
      Shows Attribute.id Attribute.morphIds g.attributes r.filterAttributes
        r.morphsOfAttribute := by
  intro g r
  have hlinked : g.IsLinked := Graph.isLinked_ofOperations ops
  have hr : r.Registers g.morphs := registers_ofGraph ops
  exact ⟨(hlinked .relation).shows hn hr.relations hr.relationsOf_eq,
    (hlinked .attribute).shows hn hr.attributes hr.attributesOf_eq⟩

/-- A substance with a second morph, which shares its first relation and has one of its own. -/
def waterOperations : List Operation :=
  operationsOf "# Water\n<is_a> Substance;\n## Ice\n<is_a> Substance;\n<melts> Water;"

theorem shows_water :
    let g := Graph.ofOperations waterOperations
    let r := ofGraph g
    (g.morphs.map (·.morphId)).Nodup ∧
      g.edges.map (·.morphIds) =
        [["water_morph_basic_1", "water_morph_ice_1"], ["water_morph_ice_1"]] ∧
      Shows Edge.id Edge.morphIds g.edges r.filterRelations r.morphsOfRelation ∧
      Shows Attribute.id Attribute.morphIds g.attributes r.filterAttributes
        r.morphsOfAttribute := by
  have hn : ((Graph.ofOperations waterOperations).morphs.map (·.morphId)).Nodup := by
    decide +kernel
  exact ⟨hn, by decide +kernel, shows_ofOperations waterOperations hn⟩

/-- Of two morphs with one identifier the registry knows the last, and what the first lists is
not shown. -/
example :
    let g := Graph.ofOperations (operationsOf "# a morph b\n<is_a> c;\n# a\n## b morph basic")
    g.edges.map (·.morphIds) = [["a_morph_b_morph_basic_1"]] ∧
      (ofGraph g).filterRelations g.edges ["a_morph_b_morph_basic_1"] = [] := by
  decide +kernel

end Registry

end NoteGraph
