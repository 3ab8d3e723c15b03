import NoteGraph.Proofs.Search
import NoteGraph.Schema.Basic

/-!
# Ancestors of roles

The search for the ancestors of a role takes one role after another from a queue and follows its
parents. A role enters the queue when it is first seen, so the search ends before it runs out of
fuel, whatever cycles the parents form, and it finds exactly the roles that can be reached, each
once and nearer ones before farther ones (`isAncestry_roleAncestors`).
-/

namespace NoteGraph.Schema

namespace Catalog

variable (c : Catalog)

/-- A step from a role to one of its parents. -/
def HasParent (role parent : String) : Prop := parent ∈ c.parentsOf role

/-- Whether a role is reached from another by any number of steps to parents. -/
def Reaches : String → String → Prop := Relation.ReflTransGen c.HasParent

/-! ### New names -/

theorem mem_newNames {name : String} (names : List String) :
    ∀ seen, name ∈ newNames seen names ↔ name ∈ names ∧ name ∉ seen := by
  induction names with
  | nil => simp [newNames]
  | cons first rest ih =>
    intro seen
    rw [newNames]
    by_cases hseen : first ∈ seen
    · rw [if_pos (by simpa using hseen), ih, List.mem_cons]
      constructor
      · rintro ⟨hrest, hnew⟩
        exact ⟨.inr hrest, hnew⟩
      · rintro ⟨rfl | hrest, hnew⟩
        · exact absurd hseen hnew
        · exact ⟨hrest, hnew⟩
    · rw [if_neg (by simpa using hseen), List.mem_cons, ih, List.mem_cons, List.mem_cons, not_or]
      constructor
      · rintro (rfl | ⟨hrest, -, hnew⟩)
        · exact ⟨.inl rfl, hseen⟩
        · exact ⟨.inr hrest, hnew⟩
      · rintro ⟨rfl | hrest, hnew⟩
        · exact .inl rfl
        · by_cases hfirst : name = first
          · exact .inl hfirst
          · exact .inr ⟨hrest, hfirst, hnew⟩

theorem nodup_newNames (names : List String) : ∀ seen, (newNames seen names).Nodup := by
  induction names with
  | nil => simp [newNames]
  | cons first rest ih =>
    intro seen
    rw [newNames]
    split_ifs
    · exact ih seen
    · refine List.nodup_cons.mpr ⟨fun hmem => ?_, ih _⟩
      exact ((mem_newNames rest _).mp hmem).2 List.mem_cons_self

/-! ### The search -/

/-- The names that are parents of any type. -/
def parentNames : List String := c.nodeTypes.flatMap (·.parentTypes)

theorem parentsOf_subset (role : String) : c.parentsOf role ⊆ c.parentNames := by
  intro parent hparent
  unfold parentsOf at hparent
  cases htype : c.nodeType? role with
  | none => simp [htype] at hparent
  | some type =>
    rw [htype] at hparent
    exact List.mem_flatMap.mpr ⟨type, List.mem_of_find?_eq_some htype, hparent⟩

theorem finds_parents : Finds (fun seen role => newNames seen (c.parentsOf role)) c.HasParent where
  mem_iff := mem_newNames _ _
  nodup _ _ := nodup_newNames _ _

theorem ancestorsFrom_eq (fuel : ℕ) : ∀ seen queue : List String,
    c.ancestorsFrom fuel seen queue =
      searchFrom (fun seen role => newNames seen (c.parentsOf role)) fuel seen queue := by
  induction fuel with
  | zero => exact fun _ _ => rfl
  | succ fuel ih =>
    intro seen queue
    cases queue with
    | nil => rfl
    | cons first queue => exact ih _ _

theorem mem_parentNames (role parent : String) (h : c.HasParent role parent) :
    parent ∈ c.parentNames.toFinset :=
  List.mem_toFinset.mpr (c.parentsOf_subset role h)

/-- The fuel suffices for all roles that can come up. -/
theorem card_roles_le (role : String) :
    (insert role c.parentNames.toFinset).card ≤ c.parentNames.length + 1 :=
  (Finset.card_insert_le _ _).trans (Nat.succ_le_succ c.parentNames.toFinset_card_le)

/-- The ancestors of a role are the roles that can be reached from it. -/
theorem mem_roleAncestors_iff {role other : String} :
    other ∈ c.roleAncestors role ↔ c.Reaches role other := by
  rw [roleAncestors, ancestorsFrom_eq]
  exact c.finds_parents.mem_searchFrom_iff c.mem_parentNames (c.card_roles_le role)

/-- The search for the ancestors of a role ends because no role is left to follow. -/
theorem searchEnds_roleAncestors (role : String) :
    SearchEnds (fun seen role => newNames seen (c.parentsOf role)) [role] [role]
      (c.roleAncestors role) := by
  rw [roleAncestors, ancestorsFrom_eq]
  exact c.finds_parents.searchEnds_searchFrom c.mem_parentNames _ _ _
    (Finds.fuel_start (c.card_roles_le role))

theorem nodup_roleAncestors (role : String) : (c.roleAncestors role).Nodup := by
  rw [roleAncestors, ancestorsFrom_eq]
  exact c.finds_parents.nodup_searchFrom _ _ _ (List.nodup_singleton role)

/-! ### The ancestors of a role -/

/-- The ancestors of a role as a list: what the search for them ends with, which is the roles that
can be reached and no others, each once, the role itself first and nearer ones before farther
ones. -/
structure IsAncestry (role : String) (found : List String) : Prop where
  ends : SearchEnds (fun seen role => newNames seen (c.parentsOf role)) [role] [role] found
  mem_iff (other : String) : other ∈ found ↔ c.Reaches role other
  nodup : found.Nodup
  head : found.head? = some role
  sorted : found.Pairwise fun a b => distance c.HasParent role a ≤ distance c.HasParent role b

/-- **Ancestry of roles**, whatever cycles the parents form and whatever roles are not declared. -/
theorem isAncestry_roleAncestors (role : String) : c.IsAncestry role (c.roleAncestors role) := by
  have hends := c.searchEnds_roleAncestors role
  obtain ⟨farther, hfound⟩ := hends.isPrefix
  refine ⟨hends, fun _ => c.mem_roleAncestors_iff, c.nodup_roleAncestors role, ?_,
    c.finds_parents.pairwise_distance hends⟩
  rw [← hfound]
  rfl

example : roleAncestors { nodeTypes := [⟨"a", "", ["c", "b"]⟩, ⟨"b", "", ["a", "d"]⟩,
    ⟨"c", "", ["c", "e"]⟩] } "a" = ["a", "c", "b", "e", "d"] := by
  decide

end Catalog

end NoteGraph.Schema
