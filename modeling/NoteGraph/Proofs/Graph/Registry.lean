import Mathlib.Data.List.Count
import NoteGraph.Graph.Registry
import NoteGraph.Proofs.Keyed

/-!
# The registry agrees with the registrations

A registry keeps its morphs in four places that every registration changes together. For each
of its three indexes the invariant `MorphIndex.Indexes` says that a morph is filed under a key
as often as its latest registration lists the key. So what a new registration removes is always
there, one filing for every time it was listed (`MorphIndex.Indexes.refile?`), and a
registration is never refused.

Main statement: after any registrations and clearings the registry answers with the latest
registration of each morph since it was cleared, and its indexes count what these registrations
list (`Registry.agrees_run`).
-/

namespace NoteGraph

/-! ### Registrations -/

/-- The latest of some registrations of a morph. -/
def latest? (ms : List Morph) (morphId : String) : Option Morph :=
  ms.reverse.find? (·.morphId == morphId)

theorem latest?_concat (ms : List Morph) (m : Morph) (morphId : String) :
    latest? (ms ++ [m]) morphId = if morphId = m.morphId then some m else latest? ms morphId := by
  by_cases h : morphId = m.morphId
  · simp [latest?, h]
  · simp [latest?, h, Ne.symm h]

theorem morphId_of_latest? {ms : List Morph} {morphId : String} {m : Morph}
    (h : latest? ms morphId = some m) : m.morphId = morphId := by
  simpa using List.find?_some h

theorem mem_of_latest? {ms : List Morph} {morphId : String} {m : Morph}
    (h : latest? ms morphId = some m) : m ∈ ms :=
  List.mem_reverse.mp (List.mem_of_find?_eq_some h)

theorem exists_latest? {ms : List Morph} {m : Morph} (hm : m ∈ ms) :
    ∃ m', latest? ms m.morphId = some m' := by
  rw [← Option.isSome_iff_exists, latest?, List.find?_isSome]
  exact ⟨m, List.mem_reverse.mpr hm, beq_self_eq_true m.morphId⟩

/-- Identifiers are those of the morphs found under them. -/
theorem map_morphId_filterMap {found : String → Option Morph} {morphIds : List String}
    (h : ∀ morphId ∈ morphIds, ∃ m, found morphId = some m ∧ m.morphId = morphId) :
    (morphIds.filterMap found).map (·.morphId) = morphIds := by
  have hall : ∀ morphId ∈ morphIds, (found morphId).map (·.morphId) = some morphId := by
    intro morphId hmem
    obtain ⟨m, hm, hid⟩ := h morphId hmem
    rw [hm, Option.map_some, hid]
  rw [List.map_filterMap]
  exact (List.filterMap_congr hall).trans List.filterMap_some

/-- The keys that the latest registration of a morph lists. -/
def latestKeys (keysOf : Morph → List String) (ms : List Morph) (morphId : String) :
    List String :=
  ((latest? ms morphId).map keysOf).getD []

theorem latestKeys_concat (keysOf : Morph → List String) (ms : List Morph) (m : Morph)
    (morphId : String) : latestKeys keysOf (ms ++ [m]) morphId =
      if morphId = m.morphId then keysOf m else latestKeys keysOf ms morphId := by
  rw [latestKeys, latest?_concat]
  split_ifs <;> rfl

/-! ### Indexes -/

namespace MorphIndex

variable {x : MorphIndex} {names : List String}

/-- The keys of an index. -/
def keys (x : MorphIndex) : List String := x.entries.map (·.1)

theorem get_put (x : MorphIndex) (key other : String) (morphIds : List String) :
    (mk (Keyed.put x.entries key morphIds)).get other =
      if other = key then morphIds else x.get other := by
  rw [get, Keyed.lookup_put]
  split_ifs <;> rfl

/-! #### Filing -/

theorem count_add (x : MorphIndex) (key morphId other otherId : String) :
    ((x.add key morphId).get other).count otherId = (x.get other).count otherId +
      if otherId = morphId ∧ other = key then 1 else 0 := by
  rw [add, get_put]
  by_cases hkey : other = key
  · by_cases hid : otherId = morphId
    · simp [hkey, hid]
    · simp [hkey, hid, Ne.symm hid]
  · simp [hkey]

theorem count_addAll (added : List String) (morphId other otherId : String) :
    ∀ x : MorphIndex, ((x.addAll added morphId).get other).count otherId =
      (x.get other).count otherId + if otherId = morphId then added.count other else 0 := by
  induction added with
  | nil => intro x; simp [addAll]
  | cons key rest ih =>
    intro x
    refine (ih (x.add key morphId)).trans ?_
    rw [count_add, List.count_cons, Nat.add_assoc]
    congr 1
    by_cases hid : otherId = morphId
    · simp only [hid, true_and, if_true, beq_iff_eq, eq_comm (a := other)]
      exact Nat.add_comm _ _
    · simp [hid]

theorem keys_addAll (added : List String) (morphId : String) :
    ∀ {x : MorphIndex} {names : List String}, x.keys = names.eraseDups →
      (x.addAll added morphId).keys = (names ++ added).eraseDups := by
  induction added with
  | nil => intro x names h; simpa [addAll] using h
  | cons key rest ih =>
    intro x names h
    have hadd : (x.add key morphId).keys = (names ++ [key]).eraseDups :=
      Keyed.map_fst_put_of_eraseDups h key _
    simpa [addAll] using ih hadd

/-! #### Removing -/

/-- What is filed can be removed. -/
theorem exists_remove? {key morphId : String} (h : morphId ∈ x.get key) :
    ∃ y, x.remove? key morphId = some y ∧ y.keys = x.keys ∧
      ∀ other otherId, (y.get other).count otherId =
        (x.get other).count otherId - if otherId = morphId ∧ other = key then 1 else 0 := by
  refine ⟨_, if_pos (by simpa using h), ?_, fun other otherId => ?_⟩
  · refine Keyed.map_fst_put_of_mem _ ?_
    by_contra hkey
    rw [get, Keyed.lookup_eq_none_of_notMem hkey] at h
    cases h
  · rw [get_put]
    by_cases hkey : other = key
    · by_cases hid : otherId = morphId
      · simp [hkey, hid]
      · simp [hkey, hid, List.count_erase_of_ne hid]
    · simp [hkey]

/-- What is filed as often as it is to be removed can be removed. -/
theorem exists_removeAll? (morphId : String) (removed : List String) :
    ∀ {x : MorphIndex}, (∀ key, removed.count key ≤ (x.get key).count morphId) →
      ∃ y, x.removeAll? removed morphId = some y ∧ y.keys = x.keys ∧
        ∀ other otherId, (y.get other).count otherId = (x.get other).count otherId -
          if otherId = morphId then removed.count other else 0 := by
  induction removed with
  | nil => exact fun _ => ⟨_, rfl, rfl, by simp⟩
  | cons key rest ih =>
    intro x h
    have hfiled : morphId ∈ x.get key := by
      have hcount := h key
      rw [List.count_cons_self] at hcount
      exact List.count_pos_iff.mp (by omega)
    obtain ⟨y, hy, hkeys, hcounts⟩ := exists_remove? hfiled
    have hrest : ∀ other, rest.count other ≤ (y.get other).count morphId := by
      intro other
      have hother := h other
      rw [List.count_cons] at hother
      rw [hcounts]
      by_cases heq : other = key
      · simp only [heq, beq_self_eq_true, if_true, and_self] at hother ⊢
        omega
      · simpa [heq, Ne.symm heq] using hother
    obtain ⟨z, hz, hkeys', hcounts'⟩ := ih hrest
    refine ⟨z, ?_, hkeys'.trans hkeys, fun other otherId => ?_⟩
    · rw [removeAll?, List.foldlM_cons, hy]
      exact hz
    · rw [hcounts', hcounts, List.count_cons]
      by_cases hid : otherId = morphId
      · by_cases heq : other = key
        · simp only [hid, heq, beq_self_eq_true, if_true, and_self]
          omega
        · simp [hid, heq, Ne.symm heq]
      · simp [hid]

/-! #### The invariant -/

/-- An index files every morph under the keys that its latest registration lists, as often as
it lists them. Its keys are all that were ever listed. -/
structure Indexes (x : MorphIndex) (keysOf : Morph → List String) (ms : List Morph) : Prop where
  count_get : ∀ key morphId,
    (x.get key).count morphId = (latestKeys keysOf ms morphId).count key
  keys_eq : x.keys = (ms.flatMap keysOf).eraseDups

variable {keysOf : Morph → List String} {ms : List Morph}

theorem indexes_empty : ({} : MorphIndex).Indexes keysOf [] :=
  ⟨fun _ _ => rfl, rfl⟩

/-- A new registration finds what it replaces. -/
theorem Indexes.refile? (h : x.Indexes keysOf ms) (m : Morph) :
    ∃ y, x.refile? (latestKeys keysOf ms m.morphId) (keysOf m) m.morphId = some y ∧
      y.Indexes keysOf (ms ++ [m]) := by
  obtain ⟨y, hy, hkeys, hcounts⟩ := exists_removeAll? m.morphId
    (latestKeys keysOf ms m.morphId) fun key => Nat.le_of_eq (h.count_get key m.morphId).symm
  refine ⟨y.addAll (keysOf m) m.morphId, by rw [MorphIndex.refile?, hy]; rfl, ?_, ?_⟩
  · intro key morphId
    rw [count_addAll, hcounts, h.count_get, latestKeys_concat]
    by_cases hid : morphId = m.morphId
    · simp [hid]
    · simp [hid]
  · rw [List.flatMap_append, List.flatMap_singleton]
    exact keys_addAll _ _ (hkeys.trans h.keys_eq)

theorem Indexes.mem_get (h : x.Indexes keysOf ms) {key morphId : String} :
    morphId ∈ x.get key ↔ key ∈ latestKeys keysOf ms morphId := by
  rw [← List.count_pos_iff, h.count_get, List.count_pos_iff]

end MorphIndex

/-! ### Calls -/

/-- A call on a registry. -/
inductive RegistryCall where
  | add (m : Morph)
  | clear
  deriving DecidableEq

/-- Some registrations with those of a call. -/
def register (ms : List Morph) : RegistryCall → List Morph
  | .add m => ms ++ [m]
  | .clear => []

/-- The registrations since the last clearing. -/
def registrations (calls : List RegistryCall) : List Morph := calls.foldl register []

theorem registrations_map_add (ms : List Morph) : registrations (ms.map .add) = ms := by
  have happend : ∀ before : List Morph,
      (ms.map RegistryCall.add).foldl register before = before ++ ms := by
    induction ms with
    | nil => simp
    | cons m rest ih => simp [register, ih]
  exact happend []

namespace Registry

variable {r : Registry} {ms : List Morph}

/-- Makes a call, which may be refused. -/
def perform? (r : Registry) : RegistryCall → Option Registry
  | .add m => r.add? m
  | .clear => some {}

/-- The registry after a call. -/
def perform (r : Registry) : RegistryCall → Registry
  | .add m => r.add m
  | .clear => {}

/-- The registry after some calls. -/
def run (r : Registry) (calls : List RegistryCall) : Registry := calls.foldl perform r

/-! ### The invariant -/

/-- A registry is what some registrations leave. -/
structure Registers (r : Registry) (ms : List Morph) : Prop where
  keys_eq : r.morphs.map (·.1) = (ms.map (·.morphId)).eraseDups
  morph?_eq : ∀ morphId, r.morph? morphId = latest? ms morphId
  nodes : r.nodeMorphs.Indexes (fun m => [m.nodeId]) ms
  relations : r.relationMorphs.Indexes (·.relationIds) ms
  attributes : r.attributeMorphs.Indexes (·.attributeIds) ms

theorem registers_empty : ({} : Registry).Registers [] :=
  ⟨rfl, fun _ => rfl, MorphIndex.indexes_empty, MorphIndex.indexes_empty,
    MorphIndex.indexes_empty⟩

/-- A registration is never refused. -/
theorem Registers.add (h : r.Registers ms) (m : Morph) :
    r.add? m = some (r.add m) ∧ (r.add m).Registers (ms ++ [m]) := by
  obtain ⟨nodes, hnodes, hnodes'⟩ := h.nodes.refile? m
  obtain ⟨relations, hrelations, hrelations'⟩ := h.relations.refile? m
  obtain ⟨attributes, hattributes, hattributes'⟩ := h.attributes.refile? m
  have hadd? : r.add? m = some ⟨Keyed.put r.morphs m.morphId m, nodes, relations, attributes⟩ := by
    simp only [latestKeys] at hnodes hrelations hattributes
    simp only [add?, h.morph?_eq, hnodes, hrelations, hattributes]
    rfl
  have hadd : r.add m = ⟨Keyed.put r.morphs m.morphId m, nodes, relations, attributes⟩ := by
    rw [Registry.add, hadd?]
    rfl
  refine ⟨hadd ▸ hadd?, ?_⟩
  rw [hadd]
  refine ⟨?_, fun morphId => ?_, hnodes', hrelations', hattributes'⟩
  · rw [List.map_append]
    exact Keyed.map_fst_put_of_eraseDups h.keys_eq m.morphId m
  · rw [latest?_concat, ← h.morph?_eq, morph?, Keyed.lookup_put]
    rfl

/-- No call is refused, and the registry is what the registrations leave. -/
theorem Registers.run (calls : List RegistryCall) : ∀ {r : Registry} {ms : List Morph},
    r.Registers ms → calls.foldlM perform? r = some (r.run calls) ∧
      (r.run calls).Registers (calls.foldl register ms) := by
  induction calls with
  | nil => exact fun h => ⟨rfl, h⟩
  | cons call rest ih =>
    intro r ms h
    rw [List.foldlM_cons]
    cases call with
    | add m =>
      obtain ⟨hadd?, hadd⟩ := h.add m
      rw [perform?, hadd?]
      exact ih hadd
    | clear => exact ih registers_empty

theorem registers_run (calls : List RegistryCall) :
    (({} : Registry).run calls).Registers (registrations calls) :=
  (registers_empty.run calls).2

theorem registers_foldl_add (ms : List Morph) : (ms.foldl add {}).Registers ms := by
  have h := registers_run (ms.map .add)
  rwa [registrations_map_add, run, List.foldl_map] at h

/-! ### What a registry answers -/

/-- A registry answers with the latest of some registrations of each morph, once among the
morphs of its node, and its indexes count what these registrations list. -/
structure Agrees (r : Registry) (ms : List Morph) : Prop where
  morph?_eq : ∀ morphId, r.morph? morphId = latest? ms morphId
  morphsOfNode : ∀ nodeId, ((r.morphsOfNode nodeId).map (·.morphId)).Nodup ∧
    ∀ m, m ∈ r.morphsOfNode nodeId ↔ latest? ms m.morphId = some m ∧ m.nodeId = nodeId
  morphsOfRelation : ∀ id morphId,
    (r.morphsOfRelation id).count morphId = (r.relationsOf morphId).count id
  morphsOfAttribute : ∀ id morphId,
    (r.morphsOfAttribute id).count morphId = (r.attributesOf morphId).count id

theorem Registers.relationsOf_eq (h : r.Registers ms) (morphId : String) :
    r.relationsOf morphId = latestKeys (·.relationIds) ms morphId := by
  rw [relationsOf, h.morph?_eq]
  rfl

theorem Registers.attributesOf_eq (h : r.Registers ms) (morphId : String) :
    r.attributesOf morphId = latestKeys (·.attributeIds) ms morphId := by
  rw [attributesOf, h.morph?_eq]
  rfl

/-- The index of nodes names a morph once, under the node of its latest registration. -/
theorem Registers.mem_nodeMorphs (h : r.Registers ms) {nodeId morphId : String} :
    morphId ∈ r.nodeMorphs.get nodeId ↔
      ∃ m, latest? ms morphId = some m ∧ m.nodeId = nodeId := by
  rw [h.nodes.mem_get, latestKeys]
  cases latest? ms morphId <;> simp [eq_comm]

theorem Registers.nodup_nodeMorphs (h : r.Registers ms) (nodeId : String) :
    (r.nodeMorphs.get nodeId).Nodup := by
  rw [List.nodup_iff_count_le_one]
  intro morphId
  rw [h.nodes.count_get, latestKeys]
  cases latest? ms morphId with
  | none => simp
  | some m => exact List.count_le_length

theorem Registers.map_morphsOfNode (h : r.Registers ms) (nodeId : String) :
    (r.morphsOfNode nodeId).map (·.morphId) = r.nodeMorphs.get nodeId := by
  refine map_morphId_filterMap fun morphId hmem => ?_
  obtain ⟨m, hm, -⟩ := h.mem_nodeMorphs.mp hmem
  exact ⟨m, (h.morph?_eq morphId).trans hm, morphId_of_latest? hm⟩

theorem Registers.agrees (h : r.Registers ms) : r.Agrees ms where
  morph?_eq := h.morph?_eq
  morphsOfNode nodeId := by
    refine ⟨h.map_morphsOfNode nodeId ▸ h.nodup_nodeMorphs nodeId, fun m => ?_⟩
    simp only [Registry.morphsOfNode, List.mem_filterMap, h.mem_nodeMorphs, h.morph?_eq]
    constructor
    · rintro ⟨morphId, ⟨m', hm', hnode⟩, hm⟩
      obtain rfl := Option.some.inj (hm'.symm.trans hm)
      rw [morphId_of_latest? hm]
      exact ⟨hm, hnode⟩
    · rintro ⟨hm, hnode⟩
      exact ⟨m.morphId, ⟨m, hm, hnode⟩, hm⟩
  morphsOfRelation id morphId := by
    rw [h.relationsOf_eq]
    exact h.relations.count_get id morphId
  morphsOfAttribute id morphId := by
    rw [h.attributesOf_eq]
    exact h.attributes.count_get id morphId

/-- **The registry agrees with the registrations**: whatever is registered, registered again
and cleared, no call is refused, and the registry answers by the latest registration of each
morph since it was cleared. -/
theorem agrees_run (calls : List RegistryCall) :
    calls.foldlM perform? ({} : Registry) = some (({} : Registry).run calls) ∧
      (({} : Registry).run calls).Agrees (registrations calls) :=
  ⟨(registers_empty.run calls).1, (registers_run calls).agrees⟩

end Registry

end NoteGraph
