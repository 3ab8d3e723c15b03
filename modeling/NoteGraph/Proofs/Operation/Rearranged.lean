import NoteGraph.Proofs.Net.SameBooks
import NoteGraph.Proofs.Operation.Passages

/-!
# Rearranged texts

The blocks of transactions can stand anywhere in a text without morph headings. Wherever they
stand, the stream has the same relations, if in another order, and every node has the same role
and the same first balance (`Rearranged.sameBooks`). Only a node that has no block may have
another plain role: it is given by its placeholder or by a mindmap, whichever comes first.
-/

namespace NoteGraph

open NoteGraph.Language

/-- The block of a transaction. -/
def Passage.isTransaction : Passage → Bool
  | mindmap _ => false
  | node block => (headingOf block).role == transactionRole

/-- The nodes that a passage declares. -/
def Passage.declares (p : Passage) : List String := p.content.declared.map Prod.fst

/-- What the passages of a text declare, in their order. -/
def declaredIn (text : String) : List (String × NodeRecord) :=
  (passages text).flatMap fun p => p.content.declared

/-- The role with which a text first declares a node. -/
def firstRole? (text id : String) : Option String :=
  ((declaredIn text).lookup id).map NodeRecord.role

/-- Two texts without morph headings that differ only in where the blocks of their transactions
stand. What has such a block is declared as a transaction before anything else, in both texts:
the first declaration decides. -/
structure Rearranged (text text' : String) : Prop where
  perm : (passages text).Perm (passages text')
  others : (passages text).filter (!·.isTransaction) = (passages text').filter (!·.isTransaction)
  roles : ∀ p ∈ passages text, p.isTransaction = true → ∀ id ∈ p.declares,
    firstRole? text id = some transactionRole ∧ firstRole? text' id = some transactionRole
  bare : ∀ block ∈ nodeBlocks text, block.morphs = []

instance (text text' : String) : Decidable (Rearranged text text') :=
  decidable_of_iff
    ((passages text).Perm (passages text') ∧
      (passages text).filter (!·.isTransaction) = (passages text').filter (!·.isTransaction) ∧
      (∀ p ∈ passages text, p.isTransaction = true → ∀ id ∈ p.declares,
        firstRole? text id = some transactionRole ∧
          firstRole? text' id = some transactionRole) ∧
      ∀ block ∈ nodeBlocks text, block.morphs = [])
    ⟨fun ⟨perm, others, roles, bare⟩ => ⟨perm, others, roles, bare⟩,
      fun h => ⟨h.perm, h.others, h.roles, h.bare⟩⟩

theorem Rearranged.symm {text text' : String} (h : Rearranged text text') :
    Rearranged text' text where
  perm := h.perm.symm
  others := h.others.symm
  roles p hp htransaction id hid :=
    (h.roles p (h.perm.mem_iff.mpr hp) htransaction id hid).symm
  bare block hblock :=
    h.bare block (node_mem_iff.mp (h.perm.mem_iff.mpr (node_mem_iff.mpr hblock)))

/-! ### What passages declare -/

theorem isPlainRole_of_mem_ofItems (root relation : String) (items : List MindmapItem) :
    ∀ above : List (String × ℕ),
      ∀ d ∈ (Content.ofItems root relation above items).declared, IsPlainRole d.2.role := by
  induction items with
  | nil => exact fun _ _ h => nomatch h
  | cons item rest ih =>
    intro above d hd
    rcases List.mem_append.mp hd with hd | hd
    · rw [List.mem_singleton.mp hd]
      exact Or.inl rfl
    · exact ih _ d hd

theorem isPlainRole_of_mem_ofMindmap (lines : List String) :
    ∀ d ∈ (Content.ofMindmap lines).declared, IsPlainRole d.2.role := by
  cases lines with
  | nil => exact fun _ h => absurd h List.not_mem_nil
  | cons first rest =>
    rw [Content.ofMindmap]
    cases MindmapHeading.ofLine? first with
    | none => exact fun _ h => absurd h List.not_mem_nil
    | some heading =>
      intro d hd
      rcases List.mem_append.mp hd with hd | hd
      · rw [List.mem_singleton.mp hd]
        exact Or.inr (Or.inl rfl)
      · exact isPlainRole_of_mem_ofItems _ _ _ _ d hd

theorem balances_ofItems (root relation : String) (items : List MindmapItem) :
    ∀ above : List (String × ℕ), (Content.ofItems root relation above items).balances = [] := by
  induction items with
  | nil => exact fun _ => rfl
  | cons item rest ih => exact fun above => ih _

theorem balances_ofMindmap (lines : List String) : (Content.ofMindmap lines).balances = [] := by
  cases lines with
  | nil => rfl
  | cons first rest =>
    rw [Content.ofMindmap]
    cases MindmapHeading.ofLine? first with
    | none => rfl
    | some heading => exact balances_ofItems _ _ _ _

/-- What statements say of a node. -/
theorem content_ofStatement (node : String) (statement : Statement) :
    (Content.ofStatement node statement).declared = [] ∧
      ∀ b ∈ (Content.ofStatement node statement).balances, b.1 = node := by
  have hnamed (name value : String) : ∀ b ∈ (balanceNamed? node name value).toList, b.1 = node := by
    intro b hb
    unfold balanceNamed? at hb
    split_ifs at hb
    · rw [List.mem_singleton.mp hb]
    · cases hb
  have htarget (surface raw : String) : (Content.ofTarget node surface raw).declared = [] ∧
      (Content.ofTarget node surface raw).balances = [] := by
    simp only [Content.ofTarget]
    split_ifs <;> exact ⟨rfl, rfl⟩
  cases statement with
  | description text => exact ⟨rfl, fun _ h => nomatch h⟩
  | «attribute» line => exact ⟨rfl, hnamed line.name line.value⟩
  | function name => exact ⟨rfl, hnamed name _⟩
  | relation surface targets =>
    simp [Content.ofStatement, Content.all, htarget]

theorem declared_ofBlock (block : NodeBlock) :
    (Content.ofBlock block).declared = (Content.ofHeading (headingOf block)).declared := by
  simp [Content.ofBlock, Content.append, Content.all, content_ofStatement]

@[simp] theorem declares_node (block : NodeBlock) :
    (Passage.node block).declares = [(headingOf block).nodeId] := by
  rw [Passage.declares, Passage.content, declared_ofBlock]
  rfl

/-- A passage gives balances only to what it declares. -/
theorem fst_mem_declares {p : Passage} {b : String × String} (hb : b ∈ p.content.balances) :
    b.1 ∈ p.declares := by
  cases p with
  | mindmap lines =>
    rw [Passage.content, balances_ofMindmap] at hb
    cases hb
  | node block =>
    rw [declares_node, List.mem_singleton]
    obtain ⟨statement, -, hmem⟩ := List.mem_flatMap.mp hb
    exact (content_ofStatement _ statement).2 b hmem

/-- Only headings give roles that are not plain. -/
theorem isPlainRole_or_node {p : Passage} {d : String × NodeRecord} (hd : d ∈ p.content.declared) :
    IsPlainRole d.2.role ∨
      ∃ block, p = .node block ∧ d.1 = (headingOf block).nodeId ∧
        d.2.role = (headingOf block).role := by
  cases p with
  | mindmap lines => exact Or.inl (isPlainRole_of_mem_ofMindmap lines d hd)
  | node block =>
    rw [Passage.content, declared_ofBlock] at hd
    rw [List.mem_singleton.mp hd]
    exact Or.inr ⟨block, rfl, rfl, rfl⟩

/-- What has a block is declared. -/
theorem exists_declared {text : String} {block : NodeBlock} (hblock : block ∈ nodeBlocks text) :
    ∃ r, (declaredIn text).lookup (headingOf block).nodeId = some r := by
  have hdeclared : (headingOf block).nodeId ∈ (Passage.node block).declares := by simp
  obtain ⟨d, hd, heq⟩ := List.mem_map.mp hdeclared
  rw [← Option.isSome_iff_exists, List.lookup_isSome_iff]
  exact ⟨d, List.mem_flatMap.mpr ⟨_, node_mem_iff.mpr hblock, hd⟩, by simp [heq]⟩

/-! ### The books of one text -/

section Text

variable {text : String} (hbare : ∀ block ∈ nodeBlocks text, block.morphs = [])
include hbare

theorem relations_operationsOf : (operationsOf text).filterMap Operation.relation? =
    (passages text).flatMap fun p => p.content.relations := by
  obtain ⟨_, _, -, h⟩ := says_operationsOf hbare
  exact h.relations

theorem balanceIn_operationsOf (id : String) : balanceIn (operationsOf text) id =
    ((passages text).flatMap fun p => p.content.balances).lookup id := by
  obtain ⟨_, _, -, h⟩ := says_operationsOf hbare
  rw [balanceIn, h.balances]
  rfl

/-- A node that has a block has the role of its first declaration in the text. -/
theorem roleIn_operationsOf {block : NodeBlock} (hblock : block ∈ nodeBlocks text) :
    roleIn (operationsOf text) (headingOf block).nodeId =
      ((declaredIn text).lookup (headingOf block).nodeId).map NodeRecord.keptRole := by
  obtain ⟨_, _, hknown, h⟩ := says_operationsOf hbare
  rw [roleIn, h.known _ (hknown block hblock)]
  rfl

/-- A node without a block has a plain role, if any. -/
theorem isPlainRole_roleIn {id : String}
    (hid : ∀ block ∈ nodeBlocks text, (headingOf block).nodeId ≠ id) {role : String}
    (hrole : role ∈ roleIn (operationsOf text) id) : IsPlainRole role := by
  obtain ⟨_, _, -, h⟩ := says_operationsOf hbare
  obtain ⟨r, hr, rfl⟩ := Option.map_eq_some_iff.mp hrole
  have hplain : IsPlainRole r.role := by
    rcases h.others _ (Keyed.mem_of_lookup_eq_some hr) with hd | hplain
    · obtain ⟨p, hp, hd⟩ := List.mem_flatMap.mp hd
      rcases isPlainRole_or_node hd with hplain | ⟨block, rfl, heq, -⟩
      · exact hplain
      · exact absurd heq.symm (hid block (node_mem_iff.mp hp))
    · exact hplain
  rcases hplain with hr | hr | hr <;> rw [NodeRecord.keptRole, hr]
  · exact Or.inl rfl
  · exact Or.inr (Or.inl rfl)
  · exact Or.inr (Or.inr rfl)

/-- A node without a block has no balance. -/
theorem balanceIn_eq_none {id : String}
    (hid : ∀ block ∈ nodeBlocks text, (headingOf block).nodeId ≠ id) :
    balanceIn (operationsOf text) id = none := by
  rw [balanceIn_operationsOf hbare]
  refine Keyed.lookup_eq_none_of_notMem fun hmem => ?_
  obtain ⟨b, hb, rfl⟩ := List.mem_map.mp hmem
  obtain ⟨p, hp, hb⟩ := List.mem_flatMap.mp hb
  have hdeclares := fst_mem_declares hb
  cases p with
  | mindmap lines =>
    rw [Passage.content, balances_ofMindmap] at hb
    cases hb
  | node block =>
    rw [declares_node, List.mem_singleton] at hdeclares
    exact hid block (node_mem_iff.mp hp) hdeclares.symm

/-- The stream of a text without morph headings has no morphs. -/
theorem isBare_operationsOf : IsBare (operationsOf text) where
  unscoped := isUnscoped_operationsOf hbare
  apart := pairwise_apart_operationsOf text
  morphs := by
    obtain ⟨_, _, -, h⟩ := says_operationsOf hbare
    exact h.morphs
  declared id hrole := by
    refine balanceIn_eq_none hbare ?_
    rintro block hblock rfl
    obtain ⟨r, hr⟩ := exists_declared hblock
    rw [roleIn_operationsOf hbare hblock, hr] at hrole
    cases hrole

end Text

/-! ### The books of rearranged texts -/

theorem lookup_flatMap_filter {α β : Type} {f : α → List (String × β)} {p : α → Bool} {id : String}
    {as : List α} (h : ∀ a ∈ as, p a = false → id ∉ (f a).map Prod.fst) :
    (as.flatMap f).lookup id = ((as.filter p).flatMap f).lookup id := by
  induction as with
  | nil => rfl
  | cons a rest ih =>
    obtain ⟨ha, hrest⟩ := List.forall_mem_cons.mp h
    rw [List.flatMap_cons, List.lookup_append, ih hrest]
    cases hp : p a with
    | true => rw [List.filter_cons_of_pos hp, List.flatMap_cons, List.lookup_append]
    | false =>
      rw [List.filter_cons_of_neg (by simp [hp]), Keyed.lookup_eq_none_of_notMem (ha hp),
        Option.none_or]

namespace Rearranged

variable {text text' : String}

/-- What has the block of a transaction is one. -/
theorem roleIn_transaction (h : Rearranged text text') {p : Passage} (hp : p ∈ passages text)
    (htransaction : p.isTransaction = true) {id : String} (hid : id ∈ p.declares) :
    roleIn (operationsOf text) id = some transactionRole := by
  have hfirst := (h.roles p hp htransaction id hid).1
  cases p with
  | mindmap lines => cases htransaction
  | node block =>
    rw [declares_node, List.mem_singleton] at hid
    subst hid
    obtain ⟨r, hr, hrole⟩ := Option.map_eq_some_iff.mp hfirst
    rw [roleIn_operationsOf h.bare (node_mem_iff.mp hp), hr, Option.map_some, NodeRecord.keptRole,
      hrole]
    rfl

/-- What is not declared as a transaction is declared in the same order in both texts. -/
theorem lookup_eq (h : Rearranged text text') {id : String}
    (hid : ∀ p ∈ passages text, p.isTransaction = true → id ∉ p.declares) {β : Type}
    {f : Passage → List (String × β)} (hf : ∀ p, (f p).map Prod.fst ⊆ p.declares) :
    ((passages text).flatMap f).lookup id = ((passages text').flatMap f).lookup id := by
  have hkept (ps : List Passage) (hps : ∀ p ∈ ps, p ∈ passages text) :
      (ps.flatMap f).lookup id = ((ps.filter (!·.isTransaction)).flatMap f).lookup id :=
    lookup_flatMap_filter fun p hp htransaction hmem =>
      hid p (hps p hp) (by simpa using htransaction) (hf p hmem)
  rw [hkept _ fun _ hp => hp, hkept _ fun _ hp => h.perm.mem_iff.mpr hp, h.others]

/-- **Rearranged texts have the same books.** -/
theorem sameBooks (h : Rearranged text text') :
    SameBooks (operationsOf text) (operationsOf text') := by
  refine ⟨?_, fun id => ?_, isBare_operationsOf h.bare, isBare_operationsOf h.symm.bare⟩
  · rw [relations_operationsOf h.bare, relations_operationsOf h.symm.bare]
    exact h.perm.flatMap_right _
  by_cases hblock : ∃ block ∈ nodeBlocks text, (headingOf block).nodeId = id
  · by_cases htransaction : ∃ p ∈ passages text, p.isTransaction = true ∧ id ∈ p.declares
    · obtain ⟨p, hp, htransaction, hid⟩ := htransaction
      have hrole := h.roleIn_transaction hp htransaction hid
      have hrole' := h.symm.roleIn_transaction (h.perm.mem_iff.mp hp) htransaction hid
      exact .same (hrole.trans hrole'.symm) (Or.inl hrole)
    · push Not at htransaction
      obtain ⟨block, hblock, rfl⟩ := hblock
      have hblock' : block ∈ nodeBlocks text' :=
        node_mem_iff.mp (h.perm.mem_iff.mp (node_mem_iff.mpr hblock))
      refine .same ?_ (Or.inr ?_)
      · rw [roleIn_operationsOf h.bare hblock, roleIn_operationsOf h.symm.bare hblock',
          declaredIn, h.lookup_eq htransaction fun _ => List.Subset.refl _]
        rfl
      · rw [balanceIn_operationsOf h.bare, balanceIn_operationsOf h.symm.bare,
          h.lookup_eq htransaction fun p id hid => ?_]
        obtain ⟨b, hb, rfl⟩ := List.mem_map.mp hid
        exact fst_mem_declares hb
  · push Not at hblock
    have hblock' : ∀ block ∈ nodeBlocks text', (headingOf block).nodeId ≠ id :=
      fun block hmem => hblock block
        (node_mem_iff.mp (h.perm.mem_iff.mpr (node_mem_iff.mpr hmem)))
    exact .plain (fun _ => isPlainRole_roleIn h.bare hblock)
      (fun _ => isPlainRole_roleIn h.symm.bare hblock') (balanceIn_eq_none h.bare hblock)
      (balanceIn_eq_none h.symm.bare hblock')

end Rearranged

end NoteGraph
