import Mathlib.Algebra.BigOperators.Group.List.Basic
import Mathlib.Data.Finset.Card
import Mathlib.Data.List.Nodup
import Mathlib.Data.List.Sort
import Mathlib.Data.String.Basic
import NoteGraph.Keyed

/-!
# Names of keyed lists

Setting a name changes what is looked up under this name and nothing else. The names of a list
are its names in the order in which they were first set, each once. The values under all names
together are the values of the entries.
-/

namespace NoteGraph

theorem nodup_eraseDups : ∀ names : List String, names.eraseDups.Nodup
  | [] => by simp
  | name :: rest => by
    rw [List.eraseDups_cons, List.nodup_cons]
    refine ⟨?_, nodup_eraseDups _⟩
    simp [List.mem_eraseDups]
termination_by names => names.length
decreasing_by exact Nat.lt_succ_of_le (List.length_filter_le _ _)

theorem length_eraseDups (names : List String) :
    names.eraseDups.length = names.toFinset.card := by
  rw [← List.toFinset_card_of_nodup (nodup_eraseDups names)]
  refine congrArg Finset.card (Finset.ext fun name => ?_)
  rw [List.mem_toFinset, List.mem_toFinset, List.mem_eraseDups]

theorem eraseDups_concat (names : List String) (name : String) :
    (names ++ [name]).eraseDups =
      if name ∈ names then names.eraseDups else names.eraseDups ++ [name] := by
  rw [List.eraseDups_append]
  split_ifs with h <;> simp [List.removeAll, h, List.eraseDups_cons]

/-- Names that come again behind some names may come once. -/
theorem eraseDups_append_eraseDups (front names : List String) :
    (front ++ names.eraseDups).eraseDups = (front ++ names).eraseDups := by
  induction names using List.reverseRecOn with
  | nil => rfl
  | append_singleton names name ih =>
    rw [eraseDups_concat, ← List.append_assoc, eraseDups_concat]
    split_ifs with h hfront hfront
    · exact ih
    · exact absurd (List.mem_append_right front h) hfront
    · rw [← List.append_assoc, eraseDups_concat, if_pos (by simpa using hfront), ih]
    · rw [← List.append_assoc, eraseDups_concat, if_neg (by simpa using hfront), ih]

theorem eraseDups_append_congr {front front' : List String}
    (h : front.eraseDups = front'.eraseDups) (back : List String) :
    (front ++ back).eraseDups = (front' ++ back).eraseDups := by
  have hmem : ∀ name, name ∈ front ↔ name ∈ front' := fun name => by
    rw [← List.mem_eraseDups, h, List.mem_eraseDups]
  induction back using List.reverseRecOn with
  | nil => simpa using h
  | append_singleton back name ih =>
    simp only [← List.append_assoc, eraseDups_concat, List.mem_append, hmem, ih]

theorem eraseDups_insert {before : List String} {name : String} (h : name ∈ before)
    (after : List String) : (before ++ name :: after).eraseDups = (before ++ after).eraseDups := by
  have hbefore : (before ++ [name]).eraseDups = before.eraseDups := by
    rw [eraseDups_concat, if_pos h]
  rw [List.append_cons, eraseDups_append_congr hbefore]

theorem head?_eraseDups (names : List String) : names.eraseDups.head? = names.head? := by
  cases names with
  | nil => rfl
  | cons name rest => rw [List.eraseDups_cons, List.head?_cons, List.head?_cons]

theorem sortNames_perm (names : List String) : (sortNames names).Perm names :=
  List.mergeSort_perm _ _

/-- Different names ascend strictly when they are sorted. -/
theorem pairwise_lt_sortNames {names : List String} (hn : names.Nodup) :
    (sortNames names).Pairwise (· < ·) := by
  have hle : (sortNames names).Pairwise (· ≤ ·) :=
    List.pairwise_mergeSort' (fun a b : String => a ≤ b) names
  have hne : (sortNames names).Pairwise (· ≠ ·) := (sortNames_perm names).nodup_iff.mpr hn
  exact hle.imp₂ (fun _ _ => lt_of_le_of_ne) hne

namespace Keyed

variable {β : Type}

theorem any_name_iff {entries : List (String × β)} {name : String} :
    entries.any (·.1 == name) = true ↔ name ∈ entries.map (·.1) := by
  simp [List.any_eq_true]

theorem map_fst_put_of_mem {entries : List (String × β)} {name : String} (value : β)
    (h : name ∈ entries.map (·.1)) : (put entries name value).map (·.1) = entries.map (·.1) := by
  rw [put, if_pos (any_name_iff.mpr h), List.map_map]
  refine List.map_congr_left fun entry _ => ?_
  by_cases he : entry.1 = name <;> simp [he]

theorem lookup_cons_of_ne {entry : String × β} {rest : List (String × β)} {name : String}
    (h : name ≠ entry.1) : (entry :: rest).lookup name = rest.lookup name := by
  rw [List.lookup_cons, beq_eq_false_iff_ne.mpr h]

theorem lookup_eq_none_of_notMem {entries : List (String × β)} {name : String}
    (h : name ∉ entries.map (·.1)) : entries.lookup name = none := by
  rw [List.lookup_eq_none_iff]
  intro entry he
  rw [bne_iff_ne]
  exact fun heq => h (List.mem_map.mpr ⟨entry, he, heq.symm⟩)

theorem lookup_eq_some_of_mem {entries : List (String × β)} (hn : (entries.map (·.1)).Nodup)
    {name : String} {value : β} (h : (name, value) ∈ entries) :
    entries.lookup name = some value := by
  induction entries with
  | nil => cases h
  | cons entry rest ih =>
    rw [List.map_cons, List.nodup_cons] at hn
    rcases List.mem_cons.mp h with rfl | hmem
    · exact List.lookup_cons_self
    · have hne : name ≠ entry.1 := fun heq =>
        hn.1 (heq ▸ List.mem_map.mpr ⟨_, hmem, rfl⟩)
      rw [lookup_cons_of_ne hne, ih hn.2 hmem]

theorem mem_of_lookup_eq_some {entries : List (String × β)} {name : String} {value : β}
    (h : entries.lookup name = some value) : (name, value) ∈ entries := by
  obtain ⟨before, after, rfl, -⟩ := List.lookup_eq_some_iff.mp h
  exact List.mem_append_right _ List.mem_cons_self

/-- Replacing the value of a name in every entry. -/
theorem lookup_map_replace (entries : List (String × β)) (name other : String) (value : β) :
    (entries.map fun entry => if entry.1 == name then (name, value) else entry).lookup other =
      if other = name then (entries.lookup other).map fun _ => value else entries.lookup other := by
  induction entries with
  | nil => simp
  | cons entry rest ih =>
    rw [List.map_cons]
    by_cases hk : entry.1 = name
    · rw [if_pos (beq_iff_eq.mpr hk)]
      by_cases ho : other = name
      · subst ho hk
        rw [List.lookup_cons_self, List.lookup_cons_self, if_pos rfl]
        rfl
      · rw [lookup_cons_of_ne ho, ih, lookup_cons_of_ne (hk ▸ ho)]
    · rw [if_neg (by simpa using hk)]
      by_cases ho : other = entry.1
      · subst ho
        rw [List.lookup_cons_self, List.lookup_cons_self, if_neg hk]
      · rw [lookup_cons_of_ne ho, lookup_cons_of_ne ho, ih]

theorem lookup_put (entries : List (String × β)) (name other : String) (value : β) :
    (put entries name value).lookup other =
      if other = name then some value else entries.lookup other := by
  rw [put]
  by_cases hmem : name ∈ entries.map (·.1)
  · rw [if_pos (any_name_iff.mpr hmem), lookup_map_replace]
    split_ifs with ho
    · subst ho
      obtain ⟨entry, he, rfl⟩ := List.mem_map.mp hmem
      have hsome : (entries.lookup entry.1).isSome := by
        rw [List.lookup_isSome_iff]
        exact ⟨entry, he, beq_self_eq_true _⟩
      obtain ⟨v, hv⟩ := Option.isSome_iff_exists.mp hsome
      rw [hv]
      rfl
    · rfl
  · rw [if_neg (mt any_name_iff.mp hmem), List.lookup_append]
    split_ifs with ho
    · subst ho
      rw [lookup_eq_none_of_notMem hmem, List.lookup_cons_self]
      rfl
    · rw [lookup_cons_of_ne ho]
      exact Option.or_none

/-- Entries are what is looked up under their names. -/
theorem eq_map_lookup {entries : List (String × β)} (hn : (entries.map (·.1)).Nodup)
    (default : β) :
    entries = (entries.map (·.1)).map fun name => (name, (entries.lookup name).getD default) := by
  rw [List.map_map]
  conv_lhs => rw [← List.map_id entries]
  refine List.map_congr_left fun entry he => ?_
  have hlookup : entries.lookup entry.1 = some entry.2 := lookup_eq_some_of_mem hn he
  simp [hlookup]

/-- Entries whose names are some names, each at the place where it first comes up, keep this
form when a name is set. -/
theorem map_fst_put_of_eraseDups {entries : List (String × β)} {names : List String}
    (h : entries.map (·.1) = names.eraseDups) (name : String) (value : β) :
    (put entries name value).map (·.1) = (names ++ [name]).eraseDups := by
  have hentries : name ∈ entries.map (·.1) ↔ name ∈ names := by
    rw [h, List.mem_eraseDups]
  rw [eraseDups_concat]
  split_ifs with hmem
  · rw [map_fst_put_of_mem value (hentries.mpr hmem), h]
  · rw [put, if_neg (mt any_name_iff.mp (mt hentries.mp hmem)), List.map_append, h]
    rfl

/-! ### Names and values -/

section Values

variable {entries more : List (String × β)} {name other : String} {value : β}

theorem mem_names_iff :
    name ∈ names entries ↔ ∃ entry ∈ entries, entry.1 = name := by
  rw [names, (sortNames_perm _).mem_iff, List.mem_eraseDups, List.mem_map]

theorem pairwise_lt_names (entries : List (String × β)) :
    (names entries).Pairwise (· < ·) :=
  pairwise_lt_sortNames (nodup_eraseDups _)

theorem nodup_names (entries : List (String × β)) : (names entries).Nodup :=
  (pairwise_lt_names entries).imp ne_of_lt

theorem valuesOf_append :
    valuesOf (entries ++ more) name = valuesOf entries name ++ valuesOf more name :=
  List.filterMap_append

theorem valuesOf_cons_self :
    valuesOf ((name, value) :: entries) name = value :: valuesOf entries name :=
  List.filterMap_cons_some (if_pos (beq_self_eq_true name))

theorem valuesOf_cons_of_ne (h : other ≠ name) :
    valuesOf ((other, value) :: entries) name = valuesOf entries name :=
  List.filterMap_cons_none (if_neg (mt beq_iff_eq.mp h))

theorem mem_valuesOf_iff : value ∈ valuesOf entries name ↔ (name, value) ∈ entries := by
  simp only [valuesOf, List.mem_filterMap, Option.ite_none_right_eq_some, beq_iff_eq,
    Option.some.injEq]
  constructor
  · rintro ⟨entry, hmem, rfl, rfl⟩
    exact hmem
  · exact fun hmem => ⟨_, hmem, rfl, rfl⟩

/-- What is looked up under a name is its first value. -/
theorem head?_valuesOf (entries : List (String × β)) (name : String) :
    (valuesOf entries name).head? = entries.lookup name := by
  induction entries with
  | nil => rfl
  | cons entry rest ih =>
    obtain ⟨other, value⟩ := entry
    by_cases h : other = name
    · rw [h, valuesOf_cons_self, List.head?_cons, List.lookup_cons_self]
    · rw [valuesOf_cons_of_ne h, ih, lookup_cons_of_ne (Ne.symm h)]

/-- The values of a name among entries with new names. -/
theorem valuesOf_map (rename : String → String) (entries : List (String × β))
    (name : String) : valuesOf (entries.map fun entry => (rename entry.1, entry.2)) name =
      (entries.filter fun entry => rename entry.1 = name).map (·.2) := by
  induction entries with
  | nil => rfl
  | cons entry rest ih =>
    rw [valuesOf] at ih ⊢
    rw [List.map_cons, List.filterMap_cons, ih]
    by_cases h : rename entry.1 = name <;> simp [h]

theorem valuesOf_filter {p : String → Bool} {name : String} (h : p name = true)
    (entries : List (String × β)) :
    valuesOf (entries.filter fun entry => p entry.1) name = valuesOf entries name := by
  rw [valuesOf, valuesOf, List.filterMap_filter]
  apply List.filterMap_congr
  intro entry _
  by_cases hname : entry.1 = name
  · simp [hname, h]
  · simp [hname]

end Values

section Sums

variable {M : Type} [AddCommGroup M] (f : β → M) {entries : List (String × β)}

/-- Summing under each name and then over the names is summing over all entries. -/
theorem sum_valuesOf {names : List String} (hn : names.Nodup)
    (h : ∀ entry ∈ entries, entry.1 ∈ names) :
    (names.map fun name => ((valuesOf entries name).map f).sum).sum =
      (entries.map fun entry => f entry.2).sum := by
  induction entries with
  | nil => simp [valuesOf]
  | cons entry rest ih =>
    obtain ⟨hentry, hrest⟩ := List.forall_mem_cons.mp h
    have hstep : ∀ name, ((valuesOf (entry :: rest) name).map f).sum =
        (if name = entry.1 then f entry.2 else 0) + ((valuesOf rest name).map f).sum := by
      intro name
      rw [valuesOf, List.filterMap_cons]
      by_cases hname : entry.1 = name
      · simp [hname, valuesOf]
      · simp [hname, Ne.symm hname, valuesOf]
    have hone : (names.map fun name => if name = entry.1 then f entry.2 else 0).sum =
        f entry.2 := by
      rw [List.sum_map_ite_eq, List.count_eq_one_of_mem hn hentry, one_nsmul]
      simp
    simp only [hstep]
    rw [List.sum_map_add, hone, ih hrest, List.map_cons, List.sum_cons]

/-- What comes under a new name is what comes under the old names that are changed to it. -/
theorem sum_valuesOf_map (rename : String → String) (name : String) :
    ((valuesOf (entries.map fun entry => (rename entry.1, entry.2)) name).map f).sum =
      (((names entries).filter fun old => rename old = name).map fun old =>
        ((valuesOf entries old).map f).sum).sum := by
  have hnodup : ((names entries).filter fun old => rename old = name).Nodup :=
    (nodup_names entries).filter _
  have hmem : ∀ entry ∈ entries.filter fun entry => rename entry.1 = name,
      entry.1 ∈ (names entries).filter fun old => rename old = name := by
    intro entry hentry
    obtain ⟨hmem, hname⟩ := List.mem_filter.mp hentry
    exact List.mem_filter.mpr ⟨mem_names_iff.mpr ⟨entry, hmem, rfl⟩, hname⟩
  rw [valuesOf_map, List.map_map, Function.comp_def, ← sum_valuesOf f hnodup hmem]
  refine congrArg List.sum (List.map_congr_left fun old hold => ?_)
  have hold := (List.mem_filter.mp hold).2
  rw [valuesOf_filter (p := fun old => rename old = name) hold]

end Sums

end Keyed

end NoteGraph
