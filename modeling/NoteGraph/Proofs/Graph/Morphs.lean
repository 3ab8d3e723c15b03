import NoteGraph.Proofs.Graph.Nodes
import NoteGraph.Proofs.Operation.Grounded
import NoteGraph.Proofs.Operation.Stream

/-!
# Which morphs a graph keeps

Two counts give morphs their identifiers: a text numbers its declared morphs as it comes to
them, and a graph numbers the basic morphs of its nodes. Both write the number behind a stem of
node and name, so a stem and a number can be read back, and the only morphs that may share an
identifier are the `k`-th declared one and the basic one of the `k`-th node. Then the declared
morph is dropped, or morphs of two nodes cannot be told apart.
-/

namespace NoteGraph

open NoteGraph.Language

/-! ### Numbered identifiers -/

/-- A stem with a number behind it. -/
def numbered (stem : String) (number : ℕ) : String := stem ++ "_" ++ toString number

theorem underscore_notMem_toString (n : ℕ) : '_' ∉ (toString n).toList := by
  rw [Nat.toString_eq_ofList_toDigits, String.toList_ofList]
  intro h
  exact absurd (Nat.isDigit_of_mem_toDigits (by decide) (by decide) h) (by decide)

/-- A list is cut in one way at the last place of an entry. -/
theorem eq_of_append_cons_eq {α : Type} {front front' back back' : List α} {a : α}
    (hback : a ∉ back) (hback' : a ∉ back') (h : front ++ a :: back = front' ++ a :: back') :
    front = front' ∧ back = back' := by
  rcases List.append_eq_append_iff.mp h with ⟨between, rfl, hcons⟩ | ⟨between, rfl, hcons⟩
  · cases between with
    | nil => exact ⟨(List.append_nil _).symm, (List.cons.inj hcons).2⟩
    | cons b rest => exact absurd ((List.cons.inj hcons).2 ▸ by simp) hback
  · cases between with
    | nil => exact ⟨List.append_nil _, (List.cons.inj hcons).2.symm⟩
    | cons b rest => exact absurd ((List.cons.inj hcons).2 ▸ by simp) hback'

/-- The stem and the number of an identifier can be read back. -/
theorem numbered_inj {stem stem' : String} {m n : ℕ} :
    numbered stem m = numbered stem' n ↔ stem = stem' ∧ m = n := by
  constructor
  · intro h
    have hlist : stem.toList ++ '_' :: (toString m).toList =
        stem'.toList ++ '_' :: (toString n).toList := by
      simpa [numbered] using congrArg String.toList h
    obtain ⟨hstem, hnumber⟩ := eq_of_append_cons_eq (underscore_notMem_toString m)
      (underscore_notMem_toString n) hlist
    exact ⟨String.toList_inj.mp hstem, Session.toString_injective (String.toList_inj.mp hnumber)⟩
  · rintro ⟨rfl, rfl⟩
    rfl

/-- The identifier of a declared morph before its number. -/
def MorphRecord.stem (record : MorphRecord) : String :=
  record.nodeId ++ "_morph_" ++ slug record.name

/-- The identifier of the basic morph of a node before its number. -/
def basicStem (nodeId : String) : String := nodeId ++ "_morph_basic"

theorem Graph.basicMorphId_eq (nodeId : String) (number : ℕ) :
    basicMorphId nodeId number = numbered (basicStem nodeId) number := by
  have hjoin : "_morph_basic_" = "_morph_basic" ++ "_" := rfl
  rw [basicMorphId, numbered, basicStem, hjoin, ← String.append_assoc]

/-! ### The numbers of declared morphs -/

/-- Morphs that are declared while one session becomes another are numbered on from its
count. -/
structure NumbersOn (s : TextSession) (records : List MorphRecord) (s' : TextSession) : Prop where
  count : s'.morphCount = s.morphCount + records.length
  numbers : ∀ k record, records[k]? = some record →
    record.morphId = numbered record.stem (s.morphCount + k + 1)

theorem NumbersOn.none {s s' : TextSession} (h : s'.morphCount = s.morphCount) :
    NumbersOn s [] s' :=
  ⟨h, fun _ _ h => nomatch h⟩

theorem NumbersOn.append {s s' s'' : TextSession} {records more : List MorphRecord}
    (h : NumbersOn s records s') (hmore : NumbersOn s' more s'') :
    NumbersOn s (records ++ more) s'' := by
  refine ⟨?_, ?_⟩
  · rw [hmore.count, h.count, List.length_append, Nat.add_assoc]
  · intro k record hk
    rw [List.getElem?_append] at hk
    split_ifs at hk with hlt
    · exact h.numbers k record hk
    · have hnumber := hmore.numbers _ record hk
      rwa [h.count, Nat.add_assoc s.morphCount, Nat.add_sub_cancel' (not_lt.mp hlt)] at hnumber

/-- Morphs that are numbered on are told apart by their identifiers. -/
theorem NumbersOn.nodup {s s' : TextSession} {records : List MorphRecord}
    (h : NumbersOn s records s') : (records.map (·.morphId)).Nodup := by
  rw [List.nodup_iff_getElem?_ne_getElem?]
  intro i j hij hj heq
  rw [List.length_map] at hj
  have hfirst := List.getElem?_eq_getElem (hij.trans hj)
  have hsecond := List.getElem?_eq_getElem hj
  rw [List.getElem?_map, List.getElem?_map, hfirst, hsecond, Option.map_some, Option.map_some,
    h.numbers i _ hfirst, h.numbers j _ hsecond] at heq
  have hnumbers := (numbered_inj.mp (Option.some.inj heq)).2
  omega

theorem Session.morphCount_declaring (s : TextSession) (nodeId : String) :
    (s.declaring nodeId).morphCount = s.morphCount := by
  unfold declaring declare
  split_ifs <;> rfl

theorem Operation.morph?_eq_none {op : Operation} (h : ∀ record, op.action ≠ .addMorph record) :
    op.morph? = none := by
  unfold morph?
  split
  · rename_i record hop
    exact absurd hop (h record)
  · rfl

theorem Operation.morph?_of_claimed {op : Operation} {claimed : Option String × Signature}
    (h : op.claimed? = some claimed) : op.morph? = none := by
  refine morph?_eq_none fun record hop => ?_
  rw [claimed?, hop] at h
  cases h

theorem Emits.numbersOn {s s' : TextSession} {ops : List Operation} (h : Emits s ops s') :
    NumbersOn s (ops.filterMap Operation.morph?) s' := by
  induction h with
  | nil s => exact .none rfl
  | declare s nodeId => exact .none (s.morphCount_declaring nodeId)
  | other s _ hmorph =>
    rw [List.filterMap_cons_none (Operation.morph?_eq_none hmorph)]
    exact .none rfl
  | morph s node name =>
    refine ⟨rfl, fun k record hk => ?_⟩
    cases k with
    | zero =>
      obtain rfl := Option.some.inj hk
      rfl
    | succ k => cases hk
  | record s baseId hclaimed =>
    rw [List.filterMap_cons_none (Operation.morph?_of_claimed hclaimed)]
    exact .none rfl
  | append _ _ ih ih' =>
    rw [List.filterMap_append]
    exact ih.append ih'

/-- The `k`-th declared morph of a text has its number at the end. -/
theorem morphId_of_getElem? {text : String} {k : ℕ} {record : MorphRecord}
    (h : ((operationsOf text).filterMap Operation.morph?)[k]? = some record) :
    record.morphId = numbered record.stem (k + 1) := by
  have hnumber := (emits_operationsIn .empty text).numbersOn.numbers k record h
  rwa [show (Session.empty : TextSession).morphCount = 0 from rfl, Nat.zero_add] at hnumber

theorem nodup_morphIds_operationsOf (text : String) :
    (((operationsOf text).filterMap Operation.morph?).map (·.morphId)).Nodup :=
  (emits_operationsIn .empty text).numbersOn.nodup

/-- The node of a declared morph is declared. -/
theorem nodeId_mem_nodeIds {text : String} {record : MorphRecord}
    (h : record ∈ (operationsOf text).filterMap Operation.morph?) :
    record.nodeId ∈ nodeIds (operationsOf text) := by
  obtain ⟨op, hop, hmorph⟩ := List.mem_filterMap.mp h
  have hground := grounded_text .empty text
  have href : Reference.node record.nodeId ∈ op.references := by
    unfold Operation.morph? at hmorph
    unfold Operation.references
    split at hmorph
    · rename_i made haction
      rw [haction, Option.some.inj hmorph]
      exact List.mem_singleton_self _
    · cases hmorph
  exact hground.declares (hground.refers op hop _ href)

namespace Graph

/-! ### Kept morphs -/

/-- The graph of a stream keeps its morphs: each node has its basic morph and all that are
declared of it, and identifiers tell all morphs of the graph apart. -/
def KeepsMorphs (ops : List Operation) : Prop :=
  (∀ n ∈ (ofOperations ops).nodes,
      n.morphs.length = 1 + (ops.filterMap Operation.morph?).countP (·.nodeId = n.id)) ∧
    ((ofOperations ops).morphs.map (·.morphId)).Nodup

instance (ops : List Operation) : Decidable (KeepsMorphs ops) :=
  inferInstanceAs (Decidable ((∀ n ∈ _, _ = _) ∧ List.Nodup _))

section Stream

variable {ops : List Operation} {n n' : Node}

theorem eq_of_id_eq (hn : n ∈ (ofOperations ops).nodes) (hn' : n' ∈ (ofOperations ops).nodes)
    (h : n.id = n'.id) : n = n' :=
  List.inj_on_of_nodup_map (nodup_map_id_nodes ops) hn hn' h

/-- The basic morph of the `k`-th node has its number at the end. -/
theorem basic_of_getElem? {k : ℕ} (hk : (ofOperations ops).nodes[k]? = some n) :
    n.basic.morphId = numbered (basicStem n.id) (k + 1) := by
  obtain ⟨d, -, hbare⟩ := declaration_of_getElem? hk
  rw [(basic_of_bare hbare).1, id_of_bare hbare, basicMorphId_eq]

/-- Basic morphs are told apart by their numbers. -/
theorem eq_of_basic_eq (hn : n ∈ (ofOperations ops).nodes) (hn' : n' ∈ (ofOperations ops).nodes)
    (h : n.basic.morphId = n'.basic.morphId) : n = n' := by
  obtain ⟨k, hk⟩ := List.mem_iff_getElem?.mp hn
  obtain ⟨k', hk'⟩ := List.mem_iff_getElem?.mp hn'
  rw [basic_of_getElem? hk, basic_of_getElem? hk', numbered_inj] at h
  obtain rfl : k = k' := Nat.succ.inj h.2
  exact Option.some.inj (hk.symm.trans hk')

variable (hids : ((ops.filterMap Operation.morph?).map (·.morphId)).Nodup)
include hids

/-- A node has all its declared morphs exactly if none has the identifier of its basic one. -/
theorem length_morphs_iff (hn : n ∈ (ofOperations ops).nodes) :
    n.morphs.length = 1 + (ops.filterMap Operation.morph?).countP (·.nodeId = n.id) ↔
      ∀ record ∈ ops.filterMap Operation.morph?, record.nodeId = n.id →
        n.basic.morphId ≠ record.morphId := by
  let own := ((ops.filterMap Operation.morph?).filter (·.nodeId = n.id)).map MorphRecord.morph
  have hown : (own.map (·.morphId)).Nodup := by
    rw [List.map_map]
    exact (List.filter_sublist.map _).nodup hids
  have hmorphs : n.morphs.map Morph.bare =
      n.basic.bare :: own.filter fun m => m.morphId ∉ [n.basic.morphId] := by
    rw [bare_morphs_ofOperations hn, foldl_addFirst_of_nodup Morph.morphId _ hown]
    rfl
  have hlength : n.morphs.length =
      1 + (own.filter fun m => m.morphId ∉ [n.basic.morphId]).length := by
    rw [← List.length_map Morph.bare, hmorphs, List.length_cons, Nat.add_comm]
  have hcount : (ops.filterMap Operation.morph?).countP (·.nodeId = n.id) = own.length := by
    rw [List.length_map, List.countP_eq_length_filter]
  rw [hlength, hcount, Nat.add_left_cancel_iff, List.length_filter_eq_length_iff]
  simp only [own, List.forall_mem_map, List.mem_filter, decide_eq_true_eq, List.mem_singleton,
    MorphRecord.morph, and_imp, ne_comm]

/-- If no basic morph has the identifier of a declared one, identifiers tell the nodes of
morphs. -/
theorem eq_of_shared_morph
    (hapart : ∀ n ∈ (ofOperations ops).nodes, ∀ record ∈ ops.filterMap Operation.morph?,
      n.basic.morphId ≠ record.morphId)
    (hn : n ∈ (ofOperations ops).nodes) (hn' : n' ∈ (ofOperations ops).nodes) {morphId : String}
    (h : morphId ∈ n.morphs.map (·.morphId)) (h' : morphId ∈ n'.morphs.map (·.morphId)) :
    n = n' := by
  rcases (mem_morphIds_iff hn).mp h with rfl | ⟨record, hrecord, hid, rfl⟩
  · rcases (mem_morphIds_iff hn').mp h' with heq | ⟨record', hrecord', -, heq⟩
    · exact eq_of_basic_eq hn hn' heq
    · exact absurd heq.symm (hapart n hn record' hrecord')
  · rcases (mem_morphIds_iff hn').mp h' with heq | ⟨record', hrecord', hid', heq⟩
    · exact absurd heq.symm (hapart n' hn' record hrecord)
    · obtain rfl := List.inj_on_of_nodup_map hids hrecord' hrecord heq
      exact eq_of_id_eq hn hn' (hid.symm.trans hid')

/-- A stream whose morphs are of declared nodes and have identifiers of their own keeps them
exactly if none has the identifier of a basic morph. -/
theorem keepsMorphs_iff
    (hnodes : ∀ record ∈ ops.filterMap Operation.morph?, record.nodeId ∈ nodeIds ops) :
    KeepsMorphs ops ↔ ∀ n ∈ (ofOperations ops).nodes,
      ∀ record ∈ ops.filterMap Operation.morph?, n.basic.morphId ≠ record.morphId := by
  constructor
  · rintro ⟨hlength, hnodup⟩ n hn record hrecord heq
    obtain ⟨n', hn', hid⟩ := List.mem_map.mp (mem_nodes_iff.mpr (hnodes record hrecord))
    have hmem : record.morphId ∈ n'.morphs.map (·.morphId) :=
      (mem_morphIds_iff hn').mpr (Or.inr ⟨record, hrecord, hid.symm, rfl⟩)
    obtain ⟨m, hm, hmorph⟩ := List.mem_map.mp hmem
    -- the identifier stands for one morph only, so the declared morph is of the same node
    have hsame : m = n.basic := List.inj_on_of_nodup_map hnodup
      (List.mem_flatMap.mpr ⟨n', hn', hm⟩) (List.mem_flatMap.mpr ⟨n, hn, List.mem_cons_self⟩)
      (hmorph.trans heq.symm)
    have hown : record.nodeId = n.id := by
      rw [← hid, ← nodeId_of_mem_morphs hn' hm, hsame]
      exact nodeId_of_mem_morphs hn List.mem_cons_self
    exact (length_morphs_iff hids hn).mp (hlength n hn) record hrecord hown heq
  · intro hapart
    refine ⟨fun n hn => (length_morphs_iff hids hn).mpr fun record hrecord _ =>
      hapart n hn record hrecord, ?_⟩
    rw [morphs, List.map_flatMap, List.nodup_flatMap]
    refine ⟨fun n hn => nodup_morphIds hn, ?_⟩
    refine (List.Nodup.of_map _ (nodup_map_id_nodes ops)).pairwise_of_forall_ne ?_
    intro n hn n' hn' hne morphId h h'
    exact hne (eq_of_shared_morph hids hapart hn hn' h h')

end Stream

/-- **Kept morphs**: the graph of a text keeps its morphs exactly if, for no `k`, the `k`-th
declared morph has the identifier of the basic morph of the `k`-th node before its number. -/
theorem keepsMorphs_operationsOf_iff (text : String) :
    KeepsMorphs (operationsOf text) ↔ ∀ (k : ℕ) (n : Node) (record : MorphRecord),
      (ofOperations (operationsOf text)).nodes[k]? = some n →
        ((operationsOf text).filterMap Operation.morph?)[k]? = some record →
          basicStem n.id ≠ record.stem := by
  rw [keepsMorphs_iff (nodup_morphIds_operationsOf text) fun record => nodeId_mem_nodeIds]
  constructor
  · intro hapart k n record hn hrecord hstem
    refine hapart n (List.mem_of_getElem? hn) record (List.mem_of_getElem? hrecord) ?_
    rw [basic_of_getElem? hn, morphId_of_getElem? hrecord, hstem]
  · intro hstems n hn record hrecord heq
    obtain ⟨k, hk⟩ := List.mem_iff_getElem?.mp hn
    obtain ⟨j, hj⟩ := List.mem_iff_getElem?.mp hrecord
    rw [basic_of_getElem? hk, morphId_of_getElem? hj, numbered_inj] at heq
    obtain ⟨hstem, hnumber⟩ := heq
    obtain rfl : k = j := Nat.succ.inj hnumber
    exact hstems k n record hk hj hstem

/-- The first declared morph is dropped if it is named as the basic one of the first node. -/
theorem not_keepsMorphs_basic : ¬KeepsMorphs (operationsOf "# a\n## basic") := by
  decide +kernel

/-- The basic morph may be that of another node, and then two nodes have one identifier. -/
example :
    let text := "# a morph b\n# a\n## b morph basic"
    (ofOperations (operationsOf text)).morphs.map (·.morphId) =
      ["a_morph_b_morph_basic_1", "a_morph_basic_2", "a_morph_b_morph_basic_1"] := by
  decide +kernel

end Graph

end NoteGraph
