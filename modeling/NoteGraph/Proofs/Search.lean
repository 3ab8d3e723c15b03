import Mathlib.Data.Finset.Card
import Mathlib.Data.List.Nodup
import Mathlib.Logic.Relation
import Mathlib.Order.Lattice.Nat

/-!
# Searches with a queue

A search takes one item after another from a queue and lets all that is new next to it join what
it has seen and the queue. An item enters the queue when it is first seen, so with fuel for every
item there is the search ends with all that can be reached, whatever cycles there are, each item
once. First come is first served, so what takes fewer steps to reach is seen first
(`pairwise_distance`).
-/

namespace NoteGraph

variable {α : Type}

/-- What is seen after a search whose queue is given; `news` are the items next to one that are
not among those seen. -/
def searchFrom (news : List α → α → List α) : ℕ → List α → List α → List α
  | 0, seen, _ => seen
  | _ + 1, seen, [] => seen
  | fuel + 1, seen, item :: queue =>
    searchFrom news fuel (seen ++ news seen item) (queue ++ news seen item)

/-- The search ends with some items found, however many items it takes from its queue. -/
inductive SearchEnds (news : List α → α → List α) : List α → List α → List α → Prop where
  | done (seen : List α) : SearchEnds news seen [] seen
  | step {seen queue found : List α} {item : α} :
      SearchEnds news (seen ++ news seen item) (queue ++ news seen item) found →
        SearchEnds news seen (item :: queue) found

/-- What is seen stays where it is. -/
theorem SearchEnds.isPrefix {news : List α → α → List α} {seen queue found : List α}
    (h : SearchEnds news seen queue found) : seen <+: found := by
  induction h with
  | done seen => exact List.prefix_rfl
  | step _ ih => exact (List.prefix_append _ _).trans ih

/-- The items that come up are those next to one that were not seen before, each once. -/
structure Finds (news : List α → α → List α) (Next : α → α → Prop) : Prop where
  mem_iff {seen : List α} {item other : α} : other ∈ news seen item ↔ Next item other ∧ other ∉ seen
  nodup (seen : List α) (item : α) : (news seen item).Nodup

namespace Finds

variable {news : List α → α → List α} {Next : α → α → Prop}

/-- The search finds nothing but what can be reached. -/
theorem reaches_of_mem (h : Finds news Next) {start : α} (fuel : ℕ) :
    ∀ seen queue : List α, queue ⊆ seen →
      (∀ item ∈ seen, Relation.ReflTransGen Next start item) →
      ∀ item ∈ searchFrom news fuel seen queue, Relation.ReflTransGen Next start item := by
  induction fuel with
  | zero => exact fun seen queue _ hseen => hseen
  | succ fuel ih =>
    intro seen queue hqueue hseen
    cases queue with
    | nil => exact hseen
    | cons first queue =>
      obtain ⟨hfirst, hqueue⟩ := List.cons_subset.mp hqueue
      rw [searchFrom]
      refine ih _ _ ?_ ?_
      · exact List.append_subset.mpr
          ⟨List.Subset.trans hqueue (List.subset_append_left _ _), List.subset_append_right _ _⟩
      · intro item hitem
        rcases List.mem_append.mp hitem with hitem | hitem
        · exact hseen item hitem
        · exact (hseen first hfirst).tail (h.mem_iff.mp hitem).1

/-- Nothing is seen twice. -/
theorem nodup_searchFrom (h : Finds news Next) (fuel : ℕ) :
    ∀ seen queue : List α, seen.Nodup → (searchFrom news fuel seen queue).Nodup := by
  induction fuel with
  | zero => exact fun seen queue hseen => hseen
  | succ fuel ih =>
    intro seen queue hseen
    cases queue with
    | nil => exact hseen
    | cons first queue =>
      rw [searchFrom]
      refine ih _ _ (hseen.append (h.nodup seen first) ?_)
      exact fun item hitem hnew => (h.mem_iff.mp hnew).2 hitem

variable [DecidableEq α]

/-- How many of some items have not been seen. -/
def unseen (items : Finset α) (seen : List α) : ℕ := (items \ seen.toFinset).card

section Complete

variable {items : Finset α}

/-- What is seen newly was not seen before. -/
theorem unseen_append (h : Finds news Next) (hitems : ∀ item other, Next item other → other ∈ items)
    (seen : List α) (item : α) :
    unseen items (seen ++ news seen item) + (news seen item).length = unseen items seen := by
  have hcard : (news seen item).toFinset.card = (news seen item).length :=
    List.toFinset_card_of_nodup (h.nodup seen item)
  have hsub : (news seen item).toFinset ⊆ items \ seen.toFinset := by
    intro other hother
    obtain ⟨hnext, hnew⟩ := h.mem_iff.mp (List.mem_toFinset.mp hother)
    rw [Finset.mem_sdiff, List.mem_toFinset]
    exact ⟨hitems item other hnext, hnew⟩
  rw [unseen, List.toFinset_append, ← Finset.sup_eq_union, ← sdiff_sdiff_left, ← hcard]
  exact Finset.card_sdiff_add_card_eq_card hsub

/-- Fuel that suffices for the queue and for all that may still come into it does so after each
step. -/
theorem fuel_step (h : Finds news Next) (hitems : ∀ item other, Next item other → other ∈ items)
    {fuel : ℕ} {seen queue : List α} {first : α}
    (hfuel : (first :: queue).length + unseen items seen ≤ fuel + 1) :
    (queue ++ news seen first).length + unseen items (seen ++ news seen first) ≤ fuel := by
  have hunseen := h.unseen_append hitems seen first
  rw [List.length_cons] at hfuel
  rw [List.length_append]
  omega

/-- Fuel for all items suffices for a search from one of them. -/
theorem fuel_start {start : α} {fuel : ℕ} (hfuel : (insert start items).card ≤ fuel) :
    [start].length + unseen items [start] ≤ fuel := by
  have hsplit := Finset.card_erase_add_one (Finset.mem_insert_self start items)
  rw [Finset.erase_insert_eq_erase, ← Finset.sdiff_singleton_eq_erase] at hsplit
  rw [List.length_singleton, unseen, List.toFinset_cons, List.toFinset_nil, insert_empty_eq]
  omega

/-- A search whose fuel suffices ends because its queue is empty. -/
theorem searchEnds_searchFrom (h : Finds news Next)
    (hitems : ∀ item other, Next item other → other ∈ items) (fuel : ℕ) :
    ∀ seen queue : List α, queue.length + unseen items seen ≤ fuel →
      SearchEnds news seen queue (searchFrom news fuel seen queue) := by
  induction fuel with
  | zero =>
    intro seen queue hfuel
    obtain rfl : queue = [] := List.length_eq_zero_iff.mp (by omega)
    exact SearchEnds.done seen
  | succ fuel ih =>
    intro seen queue hfuel
    cases queue with
    | nil => exact SearchEnds.done seen
    | cons first queue => exact SearchEnds.step (ih _ _ (h.fuel_step hitems hfuel))

/-- Where the fuel suffices for the queue and for all that may still come into it, the search
ends with items that have nothing next to them but one another. -/
theorem closed_searchFrom (h : Finds news Next)
    (hitems : ∀ item other, Next item other → other ∈ items) (fuel : ℕ) :
    ∀ seen queue : List α, queue.length + unseen items seen ≤ fuel →
      (∀ item ∈ seen, item ∈ queue ∨ ∀ other, Next item other → other ∈ seen) →
        seen ⊆ searchFrom news fuel seen queue ∧
          ∀ item ∈ searchFrom news fuel seen queue,
            ∀ other, Next item other → other ∈ searchFrom news fuel seen queue := by
  induction fuel with
  | zero =>
    intro seen queue hfuel hclosed
    obtain rfl : queue = [] := List.length_eq_zero_iff.mp (by omega)
    exact ⟨List.Subset.refl _, fun item hitem => (hclosed item hitem).resolve_left (by simp)⟩
  | succ fuel ih =>
    intro seen queue hfuel hclosed
    cases queue with
    | nil =>
      exact ⟨List.Subset.refl _, fun item hitem => (hclosed item hitem).resolve_left (by simp)⟩
    | cons first queue =>
      have hclosed' : ∀ item ∈ seen ++ news seen first, item ∈ queue ++ news seen first ∨
          ∀ other, Next item other → other ∈ seen ++ news seen first := by
        intro item hitem
        rcases List.mem_append.mp hitem with hitem | hitem
        · rcases hclosed item hitem with hqueue | hnext
          · rcases List.mem_cons.mp hqueue with rfl | hqueue
            · -- what is next to the item that was taken has been seen before or is new
              refine .inr fun other hother => List.mem_append.mpr ?_
              by_cases hseen : other ∈ seen
              · exact .inl hseen
              · exact .inr (h.mem_iff.mpr ⟨hother, hseen⟩)
            · exact .inl (List.mem_append_left _ hqueue)
          · exact .inr fun other hother => List.mem_append_left _ (hnext other hother)
        · exact .inl (List.mem_append_right _ hitem)
      rw [searchFrom]
      obtain ⟨hsub, hnext⟩ := ih _ _ (h.fuel_step hitems hfuel) hclosed'
      exact ⟨List.Subset.trans (List.subset_append_left _ _) hsub, hnext⟩

/-- A search from one item with fuel for all items sees what can be reached from it. -/
theorem mem_searchFrom_iff (h : Finds news Next)
    (hitems : ∀ item other, Next item other → other ∈ items) {start : α} {fuel : ℕ}
    (hfuel : (insert start items).card ≤ fuel) {item : α} :
    item ∈ searchFrom news fuel [start] [start] ↔ Relation.ReflTransGen Next start item := by
  obtain ⟨hsub, hclosed⟩ := h.closed_searchFrom hitems fuel [start] [start] (fuel_start hfuel)
    fun item hitem => .inl hitem
  constructor
  · refine h.reaches_of_mem fuel [start] [start] (List.Subset.refl _) (fun item hitem => ?_) item
    obtain rfl := List.mem_singleton.mp hitem
    exact Relation.ReflTransGen.refl
  · intro hreaches
    induction hreaches with
    | refl => exact hsub List.mem_cons_self
    | tail _ hnext ih => exact hclosed _ ih _ hnext

end Complete

end Finds

/-! ### Distances -/

/-- What is reached from a start in a number of steps. -/
inductive ReachesIn (Next : α → α → Prop) (start : α) : ℕ → α → Prop where
  | refl : ReachesIn Next start 0 start
  | tail {n : ℕ} {item other : α} :
      ReachesIn Next start n item → Next item other → ReachesIn Next start (n + 1) other

/-- The least number of steps in which an item is reached. -/
noncomputable def distance (Next : α → α → Prop) (start item : α) : ℕ :=
  sInf {n | ReachesIn Next start n item}

section Distance

variable {Next : α → α → Prop} {start item : α}

theorem distance_le {n : ℕ} (h : ReachesIn Next start n item) : distance Next start item ≤ n :=
  Nat.sInf_le h

theorem reachesIn_distance (h : Relation.ReflTransGen Next start item) :
    ReachesIn Next start (distance Next start item) item := by
  have hsome : ∃ n, ReachesIn Next start n item := by
    induction h with
    | refl => exact ⟨0, ReachesIn.refl⟩
    | tail _ hnext ih =>
      obtain ⟨n, hn⟩ := ih
      exact ⟨n + 1, hn.tail hnext⟩
  exact Nat.sInf_mem hsome

end Distance

/-- Where a search stands: `taken` are the items that it took from its queue. What is next to
these has been seen, nearer items before farther ones, and the items of the queue are at most one
step apart. -/
structure InOrder (Next : α → α → Prop) (start : α) (taken queue : List α) : Prop where
  start_mem : start ∈ taken ++ queue
  reaches : ∀ item ∈ taken ++ queue, Relation.ReflTransGen Next start item
  closed : ∀ item ∈ taken, ∀ other, Next item other → other ∈ taken ++ queue
  sorted : (taken ++ queue).Pairwise fun a b => distance Next start a ≤ distance Next start b
  close : ∀ a ∈ queue, ∀ b ∈ queue, distance Next start b ≤ distance Next start a + 1

namespace InOrder

variable {Next : α → α → Prop} {start first : α} {taken queue : List α}

theorem start_search (Next : α → α → Prop) (start : α) : InOrder Next start [] [start] where
  start_mem := List.mem_singleton_self start
  reaches item hitem := by
    obtain rfl := List.mem_singleton.mp hitem
    exact Relation.ReflTransGen.refl
  closed _ hitem := nomatch hitem
  sorted := List.pairwise_singleton _ _
  close a ha b hb := by
    obtain rfl := List.mem_singleton.mp ha
    obtain rfl := List.mem_singleton.mp hb
    exact Nat.le_succ _

section Step

variable (h : InOrder Next start taken (first :: queue))
include h

/-- The first item of the queue is the nearest in it. -/
theorem first_le : ∀ item ∈ first :: queue,
    distance Next start first ≤ distance Next start item := by
  have hqueue := List.pairwise_cons.mp (List.pairwise_append.mp h.sorted).2.1
  intro item hitem
  rcases List.mem_cons.mp hitem with rfl | hitem
  · exact le_rfl
  · exact hqueue.1 item hitem

/-- Nothing seen is more than one step farther than the first item of the queue. -/
theorem le_first_add_one : ∀ item ∈ taken ++ first :: queue,
    distance Next start item ≤ distance Next start first + 1 := by
  intro item hitem
  rcases List.mem_append.mp hitem with hitem | hitem
  · exact ((List.pairwise_append.mp h.sorted).2.2 item hitem first List.mem_cons_self).trans
      (Nat.le_succ _)
  · exact h.close first List.mem_cons_self item hitem

/-- All that is as near as the first item of the queue has been seen. -/
theorem mem_of_reachesIn {n : ℕ} {item : α} (hitem : ReachesIn Next start n item) :
    n ≤ distance Next start first → item ∈ taken ++ first :: queue := by
  induction hitem with
  | refl => exact fun _ => h.start_mem
  | @tail n item other hitem hnext ih =>
    intro hn
    rcases List.mem_append.mp (ih (Nat.le_of_succ_le hn)) with htaken | hqueue
    · exact h.closed item htaken other hnext
    · -- an item of the queue is not as near as that
      have hfirst := h.first_le item hqueue
      have hdistance := distance_le hitem
      omega

/-- What is new is one step farther than the first item of the queue. -/
theorem distance_of_new {other : α} (hnext : Next first other)
    (hnew : other ∉ taken ++ first :: queue) :
    distance Next start other = distance Next start first + 1 := by
  have hfirst := h.reaches first (List.mem_append_right _ List.mem_cons_self)
  have hle := distance_le ((reachesIn_distance hfirst).tail hnext)
  have hlt : ¬ distance Next start other ≤ distance Next start first := fun hdistance =>
    hnew (h.mem_of_reachesIn (reachesIn_distance (hfirst.tail hnext)) hdistance)
  omega

/-- The order is kept when the next item is taken from the queue. -/
theorem step {news : List α → α → List α} (hnews : Finds news Next) :
    InOrder Next start (taken ++ [first])
      (queue ++ news (taken ++ first :: queue) first) := by
  have hseen : ∀ new : List α,
      taken ++ [first] ++ (queue ++ new) = taken ++ first :: queue ++ new := by simp
  have hnew : ∀ item ∈ news (taken ++ first :: queue) first,
      distance Next start item = distance Next start first + 1 := fun item hitem =>
    h.distance_of_new (hnews.mem_iff.mp hitem).1 (hnews.mem_iff.mp hitem).2
  have hqueue : ∀ item ∈ queue ++ news (taken ++ first :: queue) first,
      distance Next start first ≤ distance Next start item ∧
        distance Next start item ≤ distance Next start first + 1 := by
    intro item hitem
    rcases List.mem_append.mp hitem with hitem | hitem
    · have hold := List.mem_cons_of_mem first hitem
      exact ⟨h.first_le item hold, h.le_first_add_one item (List.mem_append_right _ hold)⟩
    · exact ⟨(hnew item hitem).symm ▸ Nat.le_succ _, (hnew item hitem).le⟩
  refine ⟨?_, ?_, ?_, ?_, ?_⟩
  · rw [hseen]
    exact List.mem_append_left _ h.start_mem
  · rw [hseen]
    intro item hitem
    rcases List.mem_append.mp hitem with hitem | hitem
    · exact h.reaches item hitem
    · exact (h.reaches first (List.mem_append_right _ List.mem_cons_self)).tail
        (hnews.mem_iff.mp hitem).1
  · rw [hseen]
    intro item hitem other hnext
    by_cases hother : other ∈ taken ++ first :: queue
    · exact List.mem_append_left _ hother
    · rcases List.mem_append.mp hitem with hitem | hitem
      · exact absurd (h.closed item hitem other hnext) hother
      · obtain rfl := List.mem_singleton.mp hitem
        exact List.mem_append_right _ (hnews.mem_iff.mpr ⟨hnext, hother⟩)
  · rw [hseen]
    refine List.pairwise_append.mpr ⟨h.sorted, ?_, fun a ha b hb => ?_⟩
    · refine List.pairwise_of_forall_mem_list fun a ha b hb => ?_
      rw [hnew a ha, hnew b hb]
    · rw [hnew b hb]
      exact h.le_first_add_one a ha
  · exact fun a ha b hb => (hqueue b hb).2.trans (Nat.add_le_add_right (hqueue a ha).1 1)

end Step

/-- Nearer items stay before farther ones for the rest of a search. -/
theorem pairwise_of_searchEnds {news : List α → α → List α} (hnews : Finds news Next)
    {seen found : List α} (hends : SearchEnds news seen queue found) :
    ∀ {taken}, taken ++ queue = seen → InOrder Next start taken queue →
      found.Pairwise fun a b => distance Next start a ≤ distance Next start b := by
  induction hends with
  | done seen =>
    rintro taken rfl h
    exact h.sorted
  | @step seen queue found first _ ih =>
    rintro taken rfl h
    exact ih (by simp) (h.step hnews)

end InOrder

/-- A search from one item finds what takes fewer steps to reach first. -/
theorem Finds.pairwise_distance {news : List α → α → List α} {Next : α → α → Prop}
    (h : Finds news Next) {start : α} {found : List α}
    (hends : SearchEnds news [start] [start] found) :
    found.Pairwise fun a b => distance Next start a ≤ distance Next start b :=
  InOrder.pairwise_of_searchEnds h hends rfl (InOrder.start_search Next start)

end NoteGraph
