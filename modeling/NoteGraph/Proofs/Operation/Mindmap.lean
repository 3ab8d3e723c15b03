import Mathlib.Data.Fin.Tuple.Basic
import Mathlib.Data.List.FinRange
import NoteGraph.Proofs.Operation.Grants
import NoteGraph.Proofs.Operation.Mentions

/-!
# The tree of a mindmap

An item hangs on the most recent of the items above it that is indented less, or on the root
when there is none. The parent is looked for on a stack from which every item drops those that
are indented as far as itself; that they cannot be the parent of a later item either is what
makes the stack as good as all items above. The relations of one mindmap are claimed in one
scope, so they all have identifiers of their own, also where items of one name hang on one
parent again and again.
-/

namespace NoteGraph

open NoteGraph.Language

/-! ### Identifiers of one scope -/

namespace Session

variable {σ : Type} {s : Session σ} {scope : Option String} {id : String}

/-- An identifier that has been given in a scope. -/
def IsTaken (s : Session σ) (scope : Option String) (id : String) : Prop :=
  ∃ claim, s.claimOf? id = some claim ∧ scope ∈ claim.scopes

theorem find?_map_withScope (claims : List (Claim σ)) (given id : String)
    (scope : Option String) : (claims.map (withScope given scope)).find? (·.id == id) =
      (claims.find? (·.id == id)).map (withScope given scope) := by
  rw [List.find?_map]
  simp only [Function.comp_def, id_withScope]

theorem IsTaken.declaring (h : s.IsTaken scope id) (nodeId : String) :
    (s.declaring nodeId).IsTaken scope id := by
  unfold Session.declaring declare
  split_ifs
  · exact h
  · exact h

variable [BEq σ]

theorem IsTaken.not_isFree (h : s.IsTaken scope id) (signature : σ) :
    s.isFree scope signature id = false := by
  obtain ⟨claim, hclaim, hscope⟩ := h
  simp [isFree, hclaim, hscope]

/-- What a claim gives is taken from then on. -/
theorem isTaken_claim (s : Session σ) (baseId : String) (scope : Option String)
    (signature : σ) : (s.claim baseId scope signature).2.IsTaken scope
    (s.claim baseId scope signature).1 := by
  have hclaims : (s.claim baseId scope signature).2.claims =
      give s.claims (s.claim baseId scope signature).1 scope signature := rfl
  generalize (s.claim baseId scope signature).1 = given at hclaims ⊢
  unfold IsTaken claimOf?
  rw [hclaims]
  by_cases hmem : given ∈ s.claims.map (·.id)
  · rw [give_of_mem hmem, find?_map_withScope]
    obtain ⟨claim, hclaim⟩ : ∃ claim, s.claimOf? given = some claim := by
      rw [← Option.ne_none_iff_exists']
      exact fun hnone => notMem_of_claimOf?_eq_none hnone hmem
    rw [claimOf?] at hclaim
    rw [hclaim]
    exact ⟨_, rfl, mem_scopes_withScope.mpr (.inr ⟨(mem_claims_of_claimOf? hclaim).2, rfl⟩)⟩
  · have hnone : s.claims.find? (·.id == given) = none := by
      rw [List.find?_eq_none]
      intro claim hclaim heq
      exact hmem (List.mem_map.mpr ⟨claim, hclaim, beq_iff_eq.mp heq⟩)
    rw [give_of_notMem hmem, List.find?_append, hnone]
    exact ⟨⟨given, [scope], signature⟩, by simp, List.mem_singleton_self scope⟩

/-- What was taken stays so. -/
theorem IsTaken.claim (h : s.IsTaken scope id) (baseId : String) (scope' : Option String)
    (signature : σ) : (s.claim baseId scope' signature).2.IsTaken scope id := by
  obtain ⟨claim, hclaim, hscope⟩ := h
  rw [claimOf?] at hclaim
  have hclaims : (s.claim baseId scope' signature).2.claims =
      give s.claims (s.claim baseId scope' signature).1 scope' signature := rfl
  generalize (s.claim baseId scope' signature).1 = given at hclaims
  unfold IsTaken claimOf?
  rw [hclaims]
  by_cases hmem : given ∈ s.claims.map (·.id)
  · rw [give_of_mem hmem, find?_map_withScope, hclaim]
    exact ⟨_, rfl, mem_scopes_withScope.mpr (.inl hscope)⟩
  · rw [give_of_notMem hmem, List.find?_append, hclaim]
    exact ⟨claim, rfl, hscope⟩

end Session

/-! ### Parents -/

/-- The item that an indentation hangs on: the most recent of the items above that is indented
less. -/
def parentAmong? (above : List MindmapItem) (indent : ℕ) : Option MindmapItem :=
  above.reverse.find? fun item => item.indent < indent

/-- A stack of items, last first, on which every indentation finds what it hangs on among all
the items above. -/
def IsStackOf (above : List MindmapItem) (stack : List (String × ℕ)) : Prop :=
  ∀ indent, (stack.find? fun entry => entry.2 < indent).map (·.1) =
    (parentAmong? above indent).map fun item => cleanName item.name

theorem isStackOf_nil : IsStackOf [] [] := fun _ => rfl

theorem find?_dropWhile_of_imp {α : Type} {p q : α → Bool} {l : List α}
    (h : ∀ a, q a = true → p a = false) : (l.dropWhile p).find? q = l.find? q := by
  conv_rhs => rw [← List.takeWhile_append_dropWhile (p := p) (l := l), List.find?_append]
  have hnone : (l.takeWhile p).find? q = none := by
    rw [List.find?_eq_none]
    intro a ha hq
    have hp := List.mem_takeWhile_imp ha
    rw [h a hq] at hp
    exact Bool.false_ne_true hp
  rw [hnone, Option.none_or]

/-- An item drops those that are indented as far as itself: whoever hangs on one of them would
sooner hang on the item. -/
theorem IsStackOf.push {above : List MindmapItem} {stack : List (String × ℕ)}
    (h : IsStackOf above stack) (item : MindmapItem) :
    IsStackOf (above ++ [item]) ((cleanName item.name, item.indent) ::
      stack.dropWhile fun entry => item.indent ≤ entry.2) := by
  intro indent
  rw [parentAmong?, List.reverse_append, List.reverse_singleton, List.singleton_append,
    List.find?_cons, List.find?_cons]
  by_cases hlt : item.indent < indent
  · simp [hlt]
  · simp only [hlt, decide_false]
    rw [find?_dropWhile_of_imp fun entry hentry => ?_, h indent, parentAmong?]
    rw [decide_eq_true_iff] at hentry
    rw [decide_eq_false_iff_not]
    omega

namespace Language.MindmapHeading

/-- The node that an item hangs on below some others. -/
def parentId (heading : MindmapHeading) (above : List MindmapItem) (item : MindmapItem) :
    String :=
  ((parentAmong? above item.indent).map fun other => cleanName other.name).getD
    (cleanName heading.root)

/-- The relation with some identifier by which an item hangs on its parent. -/
def edge (heading : MindmapHeading) (above : List MindmapItem) (item : MindmapItem)
    (id : String) : Operation where
  id := id
  action := .addRelation {
    source := heading.parentId above item
    target := cleanName item.name
    name := heading.relation }
  origin := mindmapOrigin

end Language.MindmapHeading

theorem IsStackOf.parentOf {above : List MindmapItem} {stack : List (String × ℕ)}
    (h : IsStackOf above stack) (heading : MindmapHeading) (item : MindmapItem) :
    parentOf (cleanName heading.root) stack item.indent =
      (heading.parentId above item, stack.dropWhile fun entry => item.indent ≤ entry.2) := by
  have hfound : (stack.dropWhile fun entry => item.indent ≤ entry.2).head? =
      stack.find? fun entry => entry.2 < item.indent := by
    rw [List.find?_eq_head?_dropWhile_not]
    simp only [← decide_not, not_lt]
  unfold NoteGraph.parentOf MindmapHeading.parentId
  rw [← h item.indent, ← hfound]

/-! ### Trees -/

/-- The items below others, with a stack for those above: their relations get identifiers that
were not taken in the scope of the mindmap and that differ from each other. -/
theorem itemOperations_eq (heading : MindmapHeading) (items : List MindmapItem) :
    ∀ (above : List MindmapItem) (stack : List (String × ℕ)) (s : TextSession),
      IsStackOf above stack → ∃ id : Fin items.length → String,
        Function.Injective id ∧ (∀ i, ¬s.IsTaken none (id i)) ∧
          (itemOperations (cleanName heading.root) heading.relation stack s items).1 =
            (List.finRange items.length).flatMap fun i : Fin items.length =>
              [(Mention.item items[i].name).declaration,
                heading.edge (above ++ items.take i) items[i] (id i)] := by
  induction items with
  | nil => exact fun _ _ _ _ => ⟨Fin.elim0, fun i => i.elim0, fun i => i.elim0, rfl⟩
  | cons item rest ih =>
    intro above stack s hstack
    let s₁ := s.declaring (cleanName item.name)
    let base := "rel_" ++ heading.parentId above item ++ "_" ++ cleanName heading.relation ++ "_"
      ++ cleanName item.name
    let first := s₁.claim base none (.relation heading.relation (.int 1))
    obtain ⟨id, hinj, hfree, hops⟩ := ih (above ++ [item]) _ first.2 (hstack.push item)
    have hfirst : first.2.IsTaken none first.1 := s₁.isTaken_claim base none _
    refine ⟨Fin.cons first.1 id, Fin.cons_injective_iff.mpr ⟨?_, hinj⟩, ?_, ?_⟩
    · rintro ⟨i, hi⟩
      exact hfree i (hi ▸ hfirst)
    · refine Fin.cases (fun htaken => ?_) fun i htaken => ?_
      · have hopen := s₁.isFree_claim base none (.relation heading.relation (.int 1))
        have htaken : s₁.IsTaken none first.1 := htaken.declaring _
        rw [htaken.not_isFree] at hopen
        exact Bool.false_ne_true hopen
      · exact hfree i ((htaken.declaring _).claim base none _)
    · have hrange : List.finRange (item :: rest).length =
          0 :: (List.finRange rest.length).map Fin.succ := List.finRange_succ
      rw [itemOperations, hstack.parentOf heading item, hrange, List.flatMap_cons,
        List.flatMap_map]
      simp only
      rw [hops]
      simp only [Fin.getElem_fin, List.append_assoc, List.cons_append, List.nil_append,
        List.length_cons, Fin.coe_ofNat_eq_mod, Nat.zero_mod, List.getElem_cons_zero,
        List.take_zero, List.append_nil, Fin.cons_zero, Fin.val_succ, List.getElem_cons_succ,
        List.take_succ_cons, Fin.cons_succ, List.cons.injEq, and_true]
      exact ⟨rfl, rfl⟩

/-- **The tree of a mindmap**: after its root, every item of a mindmap declares its node and
then hangs on its parent, which is the most recent item above that is indented less, or else
the root. No two relations of a mindmap have one identifier, in whatever session it is read. -/
theorem mindmapOperations_eq {first : String} {heading : MindmapHeading}
    (h : MindmapHeading.ofLine? first = some heading) (rest : List String) (s : TextSession) :
    let items := rest.filterMap MindmapItem.ofLine?
    ∃ id : Fin items.length → String, Function.Injective id ∧
      (mindmapOperations s (first :: rest)).1 = (Mention.root heading.root).declaration ::
        (List.finRange items.length).flatMap fun i : Fin items.length =>
          [(Mention.item items[i].name).declaration,
            heading.edge (items.take i) items[i] (id i)] := by
  intro items
  obtain ⟨id, hinj, -, hops⟩ := itemOperations_eq heading items [] []
    (s.declaring (cleanName heading.root)) isStackOf_nil
  refine ⟨id, hinj, ?_⟩
  rw [mindmapOperations, h]
  simp only
  rw [hops]
  rfl

/-- A line that is indented more than the heading at once, a step back to a level that no line
had before, and one name three times on the same parent. -/
theorem mindmapOperations_eq_unseen_level :
    let lines := ["    - Car", "", "  - Bike", "    - Car", "    - Car", "- Car", "  - Car"]
    let items := lines.filterMap MindmapItem.ofLine?
    MindmapHeading.ofLine? "# Vehicles <has subtype>" = some ⟨"Vehicles", "has subtype"⟩ ∧
      (mindmapOperations .empty ("# Vehicles <has subtype>" :: lines)).1.filterMap
        (fun op => op.relation?.map fun r => (r.source, op.id)) =
          [("vehicles", "rel_vehicles_has_subtype_car"),
            ("vehicles", "rel_vehicles_has_subtype_bike"), ("bike", "rel_bike_has_subtype_car"),
            ("bike", "rel_bike_has_subtype_car_2"), ("vehicles", "rel_vehicles_has_subtype_car_2"),
            ("car", "rel_car_has_subtype_car")] ∧
      ∃ id : Fin items.length → String, Function.Injective id ∧
        (mindmapOperations .empty ("# Vehicles <has subtype>" :: lines)).1 =
          (Mention.root "Vehicles").declaration ::
            (List.finRange items.length).flatMap fun i : Fin items.length =>
              [(Mention.item items[i].name).declaration,
                (MindmapHeading.mk "Vehicles" "has subtype").edge (items.take i) items[i]
                  (id i)] := by
  intro lines items
  have hheading : MindmapHeading.ofLine? "# Vehicles <has subtype>" =
      some ⟨"Vehicles", "has subtype"⟩ := by decide +kernel
  exact ⟨hheading, by decide +kernel, mindmapOperations_eq hheading lines .empty⟩

end NoteGraph
