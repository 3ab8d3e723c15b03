import NoteGraph.Proofs.Graph.Links
import NoteGraph.Proofs.Graph.Morphs
import NoteGraph.Proofs.Keyed
import NoteGraph.Proofs.Net.OfText
import NoteGraph.Proofs.Net.Opening

/-!
# Roles and openings of a stream

The first declaration of a node gives its role (`Graph.role_node?`). In a stream without morphs
every record joins the basic morph of its source, so a node opens with the first balance that the
stream gives to it (`Graph.opening_eq`).
-/

namespace NoteGraph

/-- The role under which a declared node is kept. -/
def NodeRecord.keptRole (r : NodeRecord) : String :=
  if r.role.isEmpty then individualRole else r.role

/-- A named value of a node, if it is a balance. -/
def balanceNamed? (node name value : String) : Option (String × String) :=
  if name == "balance" then some (node, value) else none

/-- The node and the value of an attribute that is a balance. -/
def Attribute.balance? (a : Attribute) : Option (String × String) :=
  balanceNamed? a.sourceId a.name a.value

/-- The balance that an operation gives to a node. -/
def Operation.balance? (op : Operation) : Option (String × String) :=
  op.attribute?.bind Attribute.balance?

/-- The role that a stream gives to a node. -/
def roleIn (ops : List Operation) (id : String) : Option String :=
  ((ops.filterMap Operation.declaration?).lookup id).map NodeRecord.keptRole

/-- The first balance that a stream gives to a node. -/
def balanceIn (ops : List Operation) (id : String) : Option String :=
  (ops.filterMap Operation.balance?).lookup id

/-- A role that makes a node neither a transition nor an account of a particular kind. -/
def IsPlainRole (role : String) : Prop :=
  role = "class" ∨ role = individualRole ∨ role = plainAccountRole

instance (role : String) : Decidable (IsPlainRole role) :=
  inferInstanceAs (Decidable (_ ∨ _ ∨ _))

/-- A stream without morphs: its records have identifiers of their own, and its balances are of
nodes that it declares. -/
structure IsBare (ops : List Operation) : Prop where
  unscoped : ∀ op ∈ ops, op.IsUnscoped
  apart : ops.Pairwise Operation.Apart
  morphs : ops.filterMap Operation.morph? = []
  declared : ∀ id, roleIn ops id = none → balanceIn ops id = none

/-! ### Roles -/

theorem lookup_foldl_addFirst {β : Type} (more : List (String × β)) (id : String) :
    ∀ entries : List (String × β),
      (more.foldl (addFirst Prod.fst) entries).lookup id = (entries ++ more).lookup id := by
  induction more with
  | nil => simp
  | cons entry rest ih =>
    intro entries
    rw [List.foldl_cons, ih, List.lookup_append, List.lookup_append]
    by_cases hmem : entry.1 ∈ entries.map Prod.fst
    · rw [addFirst_of_mem Prod.fst hmem]
      by_cases hid : id = entry.1
      · subst hid
        obtain ⟨value, hvalue⟩ : ∃ value, entries.lookup entry.1 = some value := by
          obtain ⟨e, he, heq⟩ := List.mem_map.mp hmem
          rw [← Option.isSome_iff_exists, List.lookup_isSome_iff]
          exact ⟨e, he, by simp [heq]⟩
        rw [hvalue, Option.some_or, Option.some_or]
      · rw [Keyed.lookup_cons_of_ne hid]
    · rw [addFirst_of_notMem Prod.fst hmem, List.lookup_append, Option.or_assoc,
        ← List.lookup_append]
      rfl

theorem Node.role_withMorphs (n : Node) (records : List MorphRecord) :
    (n.withMorphs records).role = n.role := by
  induction records generalizing n with
  | nil => rfl
  | cons record rest ih =>
    rw [withMorphs_cons, ih]
    unfold withMorph
    split_ifs <;> rfl

namespace Graph

variable {ops : List Operation}

/-- A node has the role of its first declaration. -/
theorem role_node? (ops : List Operation) (id : String) :
    ((ofOperations ops).node? id).map (·.role) = roleIn ops id := by
  have hlookup : (declarations ops).lookup id = (ops.filterMap Operation.declaration?).lookup id :=
    lookup_foldl_addFirst _ id []
  rw [roleIn, ← hlookup]
  cases hnode : (ofOperations ops).node? id with
  | none =>
    have hid : id ∉ (declarations ops).map Prod.fst := by
      rw [← map_id_nodes, ← node?_isSome_iff, hnode]
      exact Bool.false_ne_true
    rw [Keyed.lookup_eq_none_of_notMem hid]
    rfl
  | some n =>
    obtain ⟨k, d, hd, hbare⟩ := exists_declaration (List.mem_of_find?_eq_some hnode)
    have hid : n.id = id := by simpa using List.find?_some hnode
    have hfirst : (declarations ops).lookup id = some d.2 := by
      rw [← hid, id_of_bare hbare]
      exact Keyed.lookup_eq_some_of_mem (nodup_declarations ops) (List.mem_of_getElem? hd)
    have hrole : n.role = d.2.keptRole := by
      calc n.role = n.bare.role := rfl
        _ = (newNode d.1 d.2 (k + 1)).role := by rw [hbare, declaredNode, Node.role_withMorphs]
        _ = d.2.keptRole := rfl
    rw [hfirst, Option.map_some, Option.map_some, hrole]

/-! ### Basic morphs -/

/-- Every attribute of a node belongs to the basic morph of the node. -/
def JoinsBasic (g : Graph) : Prop :=
  ∀ a ∈ g.attributes, ∀ n ∈ g.nodes, n.id = a.sourceId →
    (g.links .attribute).Has a.id n.basic.morphId

theorem node?_of_mem {g : Graph} (h : (g.nodes.map (·.id)).Nodup) {n : Node} (hn : n ∈ g.nodes) :
    g.node? n.id = some n := by
  cases hnode : g.node? n.id with
  | none => exact absurd (by simp) (List.find?_eq_none.mp hnode n hn)
  | some found =>
    have hid : found.id = n.id := by simpa using List.find?_some hnode
    exact congrArg some (List.inj_on_of_nodup_map h (List.mem_of_find?_eq_some hnode) hn hid)

/-- A record keeps its morphs when an operation is replayed. -/
theorem has_replay {g : Graph} {kind : RecordKind} {id morphId : String}
    (h : (g.links kind).Has id morphId) (op : Operation) :
    ((g.replay op).links kind).Has id morphId := by
  rcases g.replay_cases op with ⟨kind', source, scope, -, hmakes⟩ | ⟨r, -, hfield⟩ | ⟨-, hlinks, -⟩
  · have hmade := h.make op.id
    cases hmakes with
    | reported _ _ _ _ hlinks | kept _ _ _ _ _ hlinks =>
      rw [hlinks]
      by_cases hkind : kind = kind'
      · subst hkind
        rwa [Function.update_self]
      · rwa [Function.update_of_ne hkind]
    | joined m _ _ _ _ hlinks =>
      rw [hlinks]
      by_cases hkind : kind = kind'
      · subst hkind
        rw [Function.update_self]
        exact hmade.join op.id m
      · rwa [Function.update_of_ne hkind]
  · rwa [hfield, links_updateField]
  · rwa [hlinks]

/-- A record that is made under no morph of a node joins its basic morph. -/
theorem Makes.has_basic {g g' : Graph} {kind : RecordKind} {id : String}
    (hnodup : (g.nodes.map (·.id)).Nodup) {n : Node} (hn : n ∈ g.nodes)
    (h : Makes kind id n.id none g g') : (g'.links kind).Has id n.basic.morphId := by
  have htarget : g.targetMorph kind id n.id none = .ok n.basic.morphId := by
    rw [targetMorph, node?_of_mem hnodup hn]
  cases h with
  | reported e herror =>
    rw [htarget] at herror
    cases herror
  | kept m hok hhas _ _ hlinks =>
    obtain rfl := Except.ok.inj (htarget.symm.trans hok)
    rw [hlinks, Function.update_self]
    exact hhas
  | joined m hok _ _ _ hlinks =>
    obtain rfl := Except.ok.inj (htarget.symm.trans hok)
    rw [hlinks, Function.update_self]
    exact Links.has_join (Links.mem_map_make _ id) _

theorem replay_of_attribute? {op : Operation} (hop : op.IsUnscoped) {made : Attribute}
    (h : op.attribute? = some made) (g : Graph) : g.replay op = g.addAttribute made none := by
  unfold Operation.attribute? at h
  unfold Operation.IsUnscoped Operation.claimed? at hop
  unfold replay
  cases haction : op.action with
  | addAttribute r =>
    rw [haction] at h hop
    have hmorph : r.morphId = none := hop _ rfl
    simp only [← Option.some.inj h, hmorph]
  | applyFunction r =>
    rw [haction] at h hop
    have hmorph : r.morphId = none := hop _ rfl
    simp only [← Option.some.inj h, hmorph]
  | _ =>
    rw [haction] at h
    cases h

theorem JoinsBasic.replay {g : Graph} (h : g.JoinsBasic) (hnodup : (g.nodes.map (·.id)).Nodup)
    {op : Operation} (hop : op.IsUnscoped) : (g.replay op).JoinsBasic := by
  intro a ha n hn hsource
  have hbare : n.bare ∈ (g.replay op).nodes.map Node.bare := List.mem_map_of_mem hn
  rw [bare_nodes_replay] at hbare
  obtain ⟨old, hold, heq⟩ := List.mem_map.mp hbare
  have hid : old.bare.id = n.bare.id := congrArg Node.id heq
  have hbasic : old.bare.basic.morphId = n.bare.basic.morphId := by rw [heq]
  have hmade : a.bare ∈ (g.replay op).attributes.map Attribute.bare := List.mem_map_of_mem ha
  rw [bare_attributes_replay] at hmade
  rcases mem_foldl_addFirst Attribute.id hmade with hmade | hmade
  · obtain ⟨b, hb, hab⟩ := List.mem_map.mp hmade
    have hbid : b.bare.id = a.bare.id := congrArg Attribute.id hab
    have hbsource : b.bare.sourceId = a.bare.sourceId := congrArg Attribute.sourceId hab
    have hhas := has_replay (h b hb old hold (hid.trans (hsource.trans hbsource.symm))) op
    exact hbid ▸ hbasic ▸ hhas
  · -- the attribute is the one that the operation makes
    have hmakes := g.makes_addAttribute a.bare rfl none
    rw [← replay_of_attribute? hop (Option.mem_toList.mp hmade) g] at hmakes
    have hown : a.bare.sourceId = old.id := (hid.trans hsource).symm
    rw [hown] at hmakes
    have hhas := hmakes.has_basic hnodup hold
    exact hbasic ▸ hhas

theorem map_id_eq (g : Graph) : g.nodes.map (·.id) = (g.nodes.map Node.bare).map (·.id) := by
  rw [List.map_map]
  rfl

theorem JoinsBasic.foldl_replay {ops : List Operation} : ∀ {g : Graph}, g.JoinsBasic →
    (g.nodes.map (·.id)).Nodup → (∀ op ∈ ops, op.IsUnscoped) →
      (ops.foldl Graph.replay g).JoinsBasic := by
  induction ops with
  | nil => exact fun h _ _ => h
  | cons op rest ih =>
    intro g h hnodup hops
    obtain ⟨hop, hrest⟩ := List.forall_mem_cons.mp hops
    refine ih (h.replay hnodup hop) ?_ hrest
    rwa [map_id_eq, bare_nodes_replay, ← map_id_eq]

theorem joinsBasic_ofOperations (h : IsBare ops) : (ofOperations ops).JoinsBasic := by
  refine JoinsBasic.foldl_replay (g := declared ops) ?_ ?_ h.unscoped
  · have hnone : (declared ops).attributes = [] :=
      List.map_eq_nil_iff.mp (links_declared ops .attribute)
    intro a ha
    rw [hnone] at ha
    cases ha
  · rw [map_id_eq, ← bare_nodes_foldl_replay ops, ← map_id_eq]
    exact nodup_map_id_nodes ops

/-- In a stream without morphs the basic morph of a node lists all attributes of the node. -/
theorem mem_attributeIds (h : IsBare ops) {n : Node} (hn : n ∈ (ofOperations ops).nodes)
    {a : Attribute} (ha : a ∈ (ofOperations ops).attributes) (hsource : n.id = a.sourceId) :
    a.id ∈ n.basic.attributeIds := by
  obtain ⟨link, hlink, hid, hmorph⟩ := joinsBasic_ofOperations h a ha n hn hsource
  obtain ⟨-, hlists⟩ := (isLinked_ofOperations ops).morphs .attribute hlink
  obtain ⟨n', hn', m, hm, hmid, hlisted⟩ := hlists _ hmorph
  have hbasic : m.morphId = n'.basic.morphId := by
    have hmem := (mem_morphIds_iff hn').mp (List.mem_map_of_mem hm)
    rw [h.morphs] at hmem
    simpa using hmem
  obtain rfl := eq_of_basic_eq hn hn' (hmid.symm.trans hbasic)
  obtain rfl : m = n.basic :=
    List.inj_on_of_nodup_map (nodup_morphIds hn) hm List.mem_cons_self hbasic
  exact hid ▸ hlisted

/-! ### Openings -/

/-- Without morphs the attributes of a graph are those that its stream makes. -/
theorem bare_attributes_of_isBare (h : IsBare ops) :
    (ofOperations ops).attributes.map Attribute.bare = ops.filterMap Operation.attribute? := by
  have hnodup := nodup_made_ids (fun _ => Operation.id_of_mem_attribute?)
    (fun _ hnone => (Operation.makes_nothing hnone).2) h.apart h.unscoped
  rw [bare_attributes_ofOperations, foldl_addFirst_of_nodup Attribute.id [] hnodup]
  simp

/-- The first balance of a node among attributes, of which all of the node count. -/
theorem map_value_find? (id : String) {counts : Attribute → Bool} {as : List Attribute}
    (h : ∀ a ∈ as, id = a.sourceId → counts a = true) :
    ((as.filter fun a => a.sourceId == id && (some "balance").all (a.name == ·)).find? counts).map
        Attribute.value =
      (as.filterMap Attribute.balance?).lookup id := by
  induction as with
  | nil => rfl
  | cons a rest ih =>
    obtain ⟨ha, hrest⟩ := List.forall_mem_cons.mp h
    by_cases hname : a.name = "balance"
    · have hbalance : a.balance? = some (a.sourceId, a.value) :=
        if_pos (by simpa using hname)
      rw [List.filterMap_cons_some hbalance]
      by_cases hid : id = a.sourceId
      · subst hid
        rw [List.lookup_cons_self, List.filter_cons_of_pos (by simpa using hname),
          List.find?_cons_of_pos (ha rfl), Option.map_some]
      · rw [Keyed.lookup_cons_of_ne hid, List.filter_cons_of_neg (by simp [Ne.symm hid]), ih hrest]
    · have hbalance : a.balance? = none :=
        if_neg (by simpa using hname)
      rw [List.filterMap_cons_none hbalance, List.filter_cons_of_neg (by simp [hname]), ih hrest]

/-- The balance of a node is the first that the stream gives to it. -/
theorem balance?_eq (h : IsBare ops) {n : Node} (hn : n ∈ (ofOperations ops).nodes) :
    (ofOperations ops).balance? n = balanceIn ops n.id := by
  have hbalances : ops.filterMap Operation.balance? =
      (ofOperations ops).attributes.filterMap Attribute.balance? := by
    calc ops.filterMap Operation.balance?
        = (ops.filterMap Operation.attribute?).filterMap Attribute.balance? := by
          rw [List.filterMap_filterMap]
          rfl
      _ = _ := by
          rw [← bare_attributes_of_isBare h, List.filterMap_map]
          rfl
  rw [balanceIn, hbalances, ← map_value_find? n.id fun a ha hid => ?_]
  · rfl
  · simpa using mem_attributeIds h hn ha hid

/-- A node opens with the first balance that the stream gives to it, if that is an amount. -/
theorem opening_eq (h : IsBare ops) (id : String) :
    (ofOperations ops).opening id = ((balanceIn ops id).bind readAmount?).getD 0 := by
  have hrole := role_node? ops id
  unfold opening
  cases hnode : (ofOperations ops).node? id with
  | none =>
    rw [hnode] at hrole
    rw [h.declared id hrole.symm]
    rfl
  | some n =>
    have hid : n.id = id := by simpa using List.find?_some hnode
    rw [Option.bind_some, balance?_eq h (List.mem_of_find?_eq_some hnode), hid]

end Graph

end NoteGraph
