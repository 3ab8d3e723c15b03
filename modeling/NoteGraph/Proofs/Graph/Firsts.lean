import Mathlib.Data.List.Nodup

/-!
# First entries

A list in which the first entry of a key stays: a later one of the same key is not added.
The keys of such a list are distinct, and every key that came is there.
-/

namespace NoteGraph

section Firsts

variable {α : Type} (key : α → String)

/-- A list with an entry added, unless its key is taken. -/
def addFirst (entries : List α) (entry : α) : List α :=
  if entries.any (key · == key entry) then entries else entries ++ [entry]

/-- Entries may be mapped before one is added or after, if their keys stay. -/
theorem map_addFirst {β : Type} (key' : β → String) {f : α → β} (hf : ∀ a, key' (f a) = key a)
    (entries : List α) (entry : α) :
    (addFirst key entries entry).map f = addFirst key' (entries.map f) (f entry) := by
  have hany : (entries.map f).any (key' · == key' (f entry)) =
      entries.any (key · == key entry) := by
    rw [List.any_map, hf]
    exact congrArg entries.any (funext fun a => congrArg (· == key entry) (hf a))
  rw [addFirst, addFirst, hany]
  split_ifs
  · rfl
  · exact List.map_append

theorem any_key_iff {entries : List α} {k : String} :
    entries.any (key · == k) = true ↔ k ∈ entries.map key := by
  simp [List.any_eq_true]

theorem addFirst_of_mem {entries : List α} {entry : α} (h : key entry ∈ entries.map key) :
    addFirst key entries entry = entries :=
  if_pos ((any_key_iff key).mpr h)

theorem addFirst_of_notMem {entries : List α} {entry : α} (h : key entry ∉ entries.map key) :
    addFirst key entries entry = entries ++ [entry] :=
  if_neg (mt (any_key_iff key).mp h)

theorem mem_addFirst {entries : List α} {entry a : α} (h : a ∈ addFirst key entries entry) :
    a ∈ entries ∨ a = entry := by
  unfold addFirst at h
  split_ifs at h
  · exact Or.inl h
  · simpa using h

theorem subset_addFirst (entries : List α) (entry : α) :
    entries ⊆ addFirst key entries entry := by
  unfold addFirst
  split_ifs
  · exact List.Subset.refl entries
  · exact List.subset_append_left entries [entry]

theorem mem_map_addFirst {entries : List α} {entry : α} {k : String} :
    k ∈ (addFirst key entries entry).map key ↔ k ∈ entries.map key ∨ k = key entry := by
  by_cases h : key entry ∈ entries.map key
  · rw [addFirst_of_mem key h]
    refine ⟨Or.inl, ?_⟩
    rintro (hk | rfl)
    · exact hk
    · exact h
  · rw [addFirst_of_notMem key h]
    simp

/-- Keys stay distinct. -/
theorem nodup_addFirst {entries : List α} (h : (entries.map key).Nodup) (entry : α) :
    ((addFirst key entries entry).map key).Nodup := by
  by_cases hmem : key entry ∈ entries.map key
  · rwa [addFirst_of_mem key hmem]
  · rw [addFirst_of_notMem key hmem, List.map_append, List.map_cons, List.map_nil]
    exact List.Nodup.append h (List.nodup_singleton _) (List.disjoint_singleton.mpr hmem)

theorem mem_foldl_addFirst {entries more : List α} {a : α}
    (h : a ∈ more.foldl (addFirst key) entries) : a ∈ entries ∨ a ∈ more := by
  induction more generalizing entries with
  | nil => exact Or.inl h
  | cons entry rest ih =>
    rcases ih h with h | h
    · rcases mem_addFirst key h with h | rfl
      · exact Or.inl h
      · exact Or.inr List.mem_cons_self
    · exact Or.inr (List.mem_cons_of_mem _ h)

theorem mem_map_foldl_addFirst {entries more : List α} {k : String} :
    k ∈ (more.foldl (addFirst key) entries).map key ↔ k ∈ entries.map key ∨ k ∈ more.map key := by
  induction more generalizing entries with
  | nil => simp
  | cons entry rest ih =>
    rw [List.foldl_cons, ih, mem_map_addFirst, List.map_cons, List.mem_cons, or_assoc]

theorem nodup_foldl_addFirst {entries : List α} (h : (entries.map key).Nodup) (more : List α) :
    ((more.foldl (addFirst key) entries).map key).Nodup := by
  induction more generalizing entries with
  | nil => exact h
  | cons entry rest ih => exact ih (nodup_addFirst key h entry)

/-- Entries of distinct keys are added where their keys are not taken already. -/
theorem foldl_addFirst_of_nodup (entries : List α) {more : List α} (h : (more.map key).Nodup) :
    more.foldl (addFirst key) entries =
      entries ++ more.filter fun entry => key entry ∉ entries.map key := by
  induction more generalizing entries with
  | nil => simp
  | cons entry rest ih =>
    rw [List.map_cons, List.nodup_cons] at h
    rw [List.foldl_cons, ih _ h.2]
    by_cases hmem : key entry ∈ entries.map key
    · rw [addFirst_of_mem key hmem, List.filter_cons_of_neg (by simpa using hmem)]
    · have hfilter : rest.filter (fun a => key a ∉ (entries ++ [entry]).map key) =
          rest.filter fun a => key a ∉ entries.map key := by
        refine List.filter_congr fun a ha => ?_
        have hne : key a ≠ key entry := fun heq => h.1 (heq ▸ List.mem_map_of_mem ha)
        simp [hne]
      rw [addFirst_of_notMem key hmem, hfilter, List.append_assoc,
        List.filter_cons_of_pos (by simpa using hmem), List.singleton_append]

/-- Of the entries of a key only the first is there. -/
theorem filter_foldl_addFirst (entries more : List α) (k : String) :
    (more.foldl (addFirst key) entries).filter (key · == k) =
      if entries.any (key · == k) then entries.filter (key · == k)
      else (more.filter (key · == k)).take 1 := by
  induction more generalizing entries with
  | nil =>
    rw [List.foldl_nil]
    split_ifs with h
    · rfl
    · simpa using h
  | cons entry rest ih =>
    rw [List.foldl_cons, ih]
    by_cases hk : key entry = k
    · subst hk
      unfold addFirst
      cases htaken : entries.any (key · == key entry) with
      | true => rw [if_pos rfl, if_pos htaken, if_pos rfl]
      | false =>
        have hnone : entries.filter (key · == key entry) = [] := by
          simpa using htaken
        simp [hnone]
    · have hbeq : (key entry == k) = false := beq_eq_false_iff_ne.mpr hk
      have hany : (addFirst key entries entry).any (key · == k) = entries.any (key · == k) := by
        unfold addFirst
        split_ifs
        · rfl
        · simp [hbeq]
      have hfilter : (addFirst key entries entry).filter (key · == k) =
          entries.filter (key · == k) := by
        unfold addFirst
        split_ifs
        · rfl
        · simp [hbeq]
      rw [hany, hfilter, List.filter_cons_of_neg (Bool.not_eq_true _ ▸ hbeq)]

/-- Every entry is the first of its key if, and only if, keys tell entries apart. -/
theorem take_one_filter_iff (entries : List α) :
    (∀ entry ∈ entries, (entries.filter (key · == key entry)).take 1 = [entry]) ↔
      ∀ entry ∈ entries, ∀ other ∈ entries, key entry = key other → entry = other := by
  constructor
  · intro h entry hentry other hother hkey
    have heq := (h entry hentry).symm.trans (hkey ▸ h other hother)
    exact (List.cons.inj heq).1
  · intro h entry hentry
    cases hfilter : entries.filter (key · == key entry) with
    | nil =>
      have hmem : entry ∈ entries.filter (key · == key entry) :=
        List.mem_filter.mpr ⟨hentry, beq_self_eq_true (key entry)⟩
      rw [hfilter] at hmem
      cases hmem
    | cons first rest =>
      have hfirst : first ∈ entries.filter (key · == key entry) := by
        rw [hfilter]
        exact List.mem_cons_self
      obtain ⟨hmem, hkey⟩ := List.mem_filter.mp hfirst
      rw [List.take_succ_cons, List.take_zero, h first hmem entry hentry (beq_iff_eq.mp hkey)]

end Firsts

end NoteGraph
