import Mathlib.Data.Set.Card
import NoteGraph.Net.RowSort
import NoteGraph.Proofs.Engine.Tallies

/-!
# Bounded reachability is exact

A search looks at the markings that firing can reach and no others. If it is not cut off it has
found them all, with the markings in which nothing can fire and the transitions that can fire in
some marking. It always comes to its end, even if there is no end to the markings.

Only a count that is no number can keep a search from being exact: whenever a firing computes it
anew it is taken for another one, so that a marking is found more than once. Where all summed input
weights are finite no count is ever undefined. Then every marking is found once, and the search is
cut off exactly when there are more of them than its limit.

The invariant of a search tells apart the markings that it has left and those that wait
in its queue; together they are the markings found, each with its own key.
-/

namespace NoteGraph

namespace Engine

variable {α : Type} [Quantity α] [EntryOrder]

/-- The markings that firing can reach from the marking of an engine: the least set with
that marking that is closed under what each transition that can fire leads to. -/
inductive Reaches (e : Engine α) : Marking α → Prop where
  | here : Reaches e e.marking
  | fire {m : Marking α} {t : String} :
    Reaches e m → e.isEnabledIn m t = true → Reaches e (e.successor m t)

/-- The set of markings that firing can reach. -/
def reachedSet (e : Engine α) : Set (Marking α) := {m | e.Reaches m}

/-- A marking in which no transition can fire. -/
def IsDead (e : Engine α) (m : Marking α) : Prop := ∀ t, e.isEnabledIn m t = false

/-- A transition that can fire in some marking that firing can reach. -/
def CanFire (e : Engine α) (t : String) : Prop := ∃ m, e.Reaches m ∧ e.isEnabledIn m t = true

theorem mem_enabled_iff {e : Engine α} {m : Marking α} {t : String} :
    t ∈ e.net.transitionNames.filter (e.isEnabledIn m) ↔ e.isEnabledIn m t = true := by
  rw [List.mem_filter]
  exact and_iff_right_of_imp mem_transitionNames_of_isEnabledIn

theorem filter_enabled_eq_nil_iff {e : Engine α} {m : Marking α} :
    e.net.transitionNames.filter (e.isEnabledIn m) = [] ↔ e.IsDead m := by
  rw [List.eq_nil_iff_forall_not_mem, IsDead]
  exact forall_congr' fun t => by rw [mem_enabled_iff, Bool.not_eq_true]

/-- Reached markings list the places of the net. -/
theorem Reaches.map_fst {e : Engine α} (htoken : e.accounting = false) (hc : e.Covers)
    {m : Marking α} (h : e.Reaches m) : m.map (·.1) = e.net.placeNames := by
  induction h with
  | here => exact hc
  | fire _ _ ih => exact map_fst_successor htoken ih _

/-- Reached markings are told apart by what their places hold. -/
theorem Reaches.ext {e : Engine α} (htoken : e.accounting = false) (hc : e.Covers)
    (hn : e.net.placeNames.Nodup) {m m' : Marking α} (h : e.Reaches m) (h' : e.Reaches m')
    (heq : ∀ place ∈ e.net.placeNames, m.get place = m'.get place) : m = m' := by
  have hm := h.map_fst htoken hc
  have hm' := h'.map_fst htoken hc
  exact Marking.ext_get (hm ▸ hn) (hm.trans hm'.symm) fun place hp => heq place (hm ▸ hp)

/-- No marking that firing can reach holds a count that is no number. -/
def StaysDefined (e : Engine α) : Prop :=
  ∀ m, e.Reaches m → ∀ place ∈ e.net.placeNames, Quantity.isNumber (m.get place) = true

end Engine

/-! ### Keys -/

namespace Finding

variable {α : Type} [Quantity α] {e : Engine α} {f f' : Finding α}

/-- Equal keys are those of equal counts. -/
theorem get_eq_of_key_eq (h : f.key e = f'.key e) :
    ∀ place ∈ e.net.placeNames, f.marking.get place = f'.marking.get place :=
  fun place hp => congrArg Prod.fst (List.map_inj_left.mp h place hp)

/-- Of a count that is no number equal keys also tell that it comes from the same firing. -/
theorem lastChange_eq_of_key_eq (h : f.key e = f'.key e) {place : String}
    (hp : place ∈ e.net.placeNames) (hundefined : Quantity.isNumber (f.marking.get place) = false) :
    f.lastChange place = f'.lastChange place := by
  have hsame := congrArg Prod.snd (List.map_inj_left.mp h place hp)
  rw [get_eq_of_key_eq h place hp] at hundefined hsame
  simpa [hundefined] using hsame

/-- Where all counts are numbers, the key does not depend on the firings. -/
theorem key_eq_of_isNumber
    (h : ∀ place ∈ e.net.placeNames, Quantity.isNumber (f.marking.get place) = true) :
    f.key e = e.net.placeNames.map fun place => (f.marking.get place, none) :=
  List.map_congr_left fun place hp => congrArg _ (if_pos (h place hp))

theorem lastChange_fire [EntryOrder] (f : Finding α) (t place : String) (firing : ℕ) :
    (f.fire e t firing).lastChange place =
      if place ∈ (e.net.postings t).map (·.account) then firing else f.lastChange place := by
  have hput (places : List String) : ∀ changed : List (String × ℕ),
      ((places.foldl (fun changed place => Keyed.put changed place firing) changed).lookup
        place).getD 0 = if place ∈ places then firing else (changed.lookup place).getD 0 := by
    induction places with
    | nil => exact fun _ => rfl
    | cons first rest ih =>
      intro changed
      rw [List.foldl_cons, ih, Keyed.lookup_put]
      by_cases hfirst : place = first <;> by_cases hrest : place ∈ rest <;> simp [hfirst, hrest]
  exact hput _ f.changed

end Finding

namespace Search

variable {α : Type} [BEq α] [LawfulBEq α] [Hashable α] [Quantity α]

/-! ### The queue -/

omit [LawfulBEq α] [Quantity α] in
/-- The markings that wait, in the order in which they will be left. -/
def waiting (s : Search α) : List (Finding α) := s.queue ++ s.found.reverse

omit [LawfulBEq α] [Quantity α] in
theorem waiting_of_next?_eq_none {s : Search α} (h : s.next? = none) : s.waiting = [] := by
  unfold next? at h
  split at h
  · cases h
  · rename_i hq
    split at h
    · cases h
    · rename_i hf
      rw [waiting, hq, hf]
      rfl

omit [LawfulBEq α] [Quantity α] in
/-- Taking the next marking changes nothing but the queue. -/
theorem next?_eq_some {s s' : Search α} {f : Finding α} (h : s.next? = some (f, s')) :
    s.waiting = f :: s'.waiting ∧
      ∃ queue found, s' = { s with queue := queue, found := found } := by
  unfold next? at h
  split at h
  · rename_i hq
    obtain ⟨rfl, rfl⟩ := Prod.mk.inj (Option.some.inj h)
    exact ⟨by rw [waiting, hq]; rfl, _, _, rfl⟩
  · rename_i hq
    split at h
    · rename_i hf
      obtain ⟨rfl, rfl⟩ := Prod.mk.inj (Option.some.inj h)
      exact ⟨by rw [waiting, hq, hf]; simp [waiting], _, _, rfl⟩
    · cases h

/-! ### The markings found -/

variable [EntryOrder] (e : Engine α) (limit : ℕ)

/-- A search that knows what a transition leads to from a marking, as a firing that comes after
those that led to the marking. -/
def Sees (s : Search α) (f : Finding α) (t : String) : Prop :=
  ∃ firing, (∀ place, f.lastChange place < firing) ∧ (f.fire e t firing).key e ∈ s.visited

/-- What holds of the markings found: the first of all is among them, they can be reached, by
firings of the search, each has its own key, the search knows the keys and no others, and a
search that is cut off has as many markings as its limit and has seen one more. -/
structure Knows (known : List (Finding α)) (s : Search α) : Prop where
  start : ∃ f ∈ known, f.marking = e.marking
  reached : ∀ f ∈ known, e.Reaches f.marking
  changed : ∀ f ∈ known, ∀ place, f.lastChange place ≤ s.firings
  nodup : (known.map (·.key e)).Nodup
  keys : ∀ key, key ∈ s.visited ↔ key ∈ known.map (·.key e)
  size : s.visited.size = known.length
  le : known.length ≤ limit
  full : s.truncated = true →
    known.length = limit ∧ ∃ f : Finding α, e.Reaches f.marking ∧ f.key e ∉ s.visited

variable {e limit}

omit [LawfulBEq α] in
/-- What is known does not depend on the queue, and more firings keep it. -/
theorem Knows.mono {known : List (Finding α)} {s s' : Search α} (h : Knows e limit known s)
    (hvisited : s'.visited = s.visited) (hfirings : s.firings ≤ s'.firings)
    (hfull : s'.truncated = true →
      known.length = limit ∧ ∃ f : Finding α, e.Reaches f.marking ∧ f.key e ∉ s.visited) :
    Knows e limit known s' where
  start := h.start
  reached := h.reached
  changed f hf place := (h.changed f hf place).trans hfirings
  nodup := h.nodup
  keys := hvisited ▸ h.keys
  size := hvisited ▸ h.size
  le := h.le
  full := hvisited ▸ hfull

/-- A search with room for one more marking knows it when it has found it. -/
theorem Knows.add {known : List (Finding α)} {s s' : Search α} (h : Knows e limit known s)
    {next : Finding α} (hnext : e.Reaches next.marking) (hnew : next.key e ∉ s.visited)
    (hroom : s.visited.size < limit) (hchanged : ∀ place, next.lastChange place ≤ s'.firings)
    (hvisited : s'.visited = s.visited.insert (next.key e)) (hfirings : s.firings ≤ s'.firings)
    (htruncated : s'.truncated = s.truncated) : Knows e limit (known ++ [next]) s' where
  start := h.start.imp fun _ hfirst => ⟨List.mem_append_left _ hfirst.1, hfirst.2⟩
  reached := List.forall_mem_append.mpr ⟨h.reached, List.forall_mem_singleton.mpr hnext⟩
  changed := List.forall_mem_append.mpr ⟨fun f hf place => (h.changed f hf place).trans hfirings,
    List.forall_mem_singleton.mpr hchanged⟩
  nodup := by
    rw [List.map_append, List.nodup_append]
    refine ⟨h.nodup, List.nodup_singleton _, ?_⟩
    rintro key hkey last hlast rfl
    obtain rfl := List.mem_singleton.mp hlast
    exact hnew ((h.keys _).mpr hkey)
  keys key := by
    rw [hvisited, Std.HashSet.mem_insert, beq_iff_eq, h.keys, List.map_append, List.mem_append,
      List.map_singleton, List.mem_singleton, eq_comm, or_comm]
  size := by
    rw [hvisited, Std.HashSet.size_insert, if_neg hnew, h.size, List.length_append,
      List.length_singleton]
  le := by
    rw [List.length_append, List.length_singleton, ← h.size]
    exact hroom
  full htrunc := by
    have hlimit := (h.full (htruncated ▸ htrunc)).1
    exact absurd (h.size.trans hlimit) hroom.ne

/-- What following transitions out of a marking does: they have fired, no marking is
forgotten, and unless the search is cut off they lead to markings that it knows. -/
structure Followed (e : Engine α) (f : Finding α) (ts : List String) (s s' : Search α) : Prop where
  dead : s'.dead = s.dead
  firings : s.firings ≤ s'.firings
  fired : ∀ t, t ∈ s'.fired ↔ t ∈ s.fired ∨ t ∈ ts
  grows : ∀ key, key ∈ s.visited → key ∈ s'.visited
  closed : s'.truncated = false → s.truncated = false ∧ ∀ t ∈ ts, s'.Sees e f t

omit [LawfulBEq α] in
theorem Sees.mono {s s' : Search α} (hgrows : ∀ key, key ∈ s.visited → key ∈ s'.visited)
    {f : Finding α} {t : String} (h : s.Sees e f t) : s'.Sees e f t := by
  obtain ⟨firing, hlater, hkey⟩ := h
  exact ⟨firing, hlater, hgrows _ hkey⟩

omit [LawfulBEq α] in
theorem Followed.nil (f : Finding α) (s : Search α) : Followed e f [] s s :=
  ⟨rfl, le_rfl, by simp, fun _ h => h, fun h => ⟨h, fun _ ht => nomatch ht⟩⟩

omit [LawfulBEq α] in
theorem Followed.cons {f : Finding α} {t : String} {ts : List String} {s s' s'' : Search α}
    (h : Followed e f [t] s s') (h' : Followed e f ts s' s'') : Followed e f (t :: ts) s s'' := by
  refine ⟨h'.dead.trans h.dead, h.firings.trans h'.firings, fun other => ?_,
    fun key hkey => h'.grows key (h.grows key hkey), fun htrunc => ?_⟩
  · rw [h'.fired, h.fired, List.mem_singleton, List.mem_cons, or_assoc]
  · obtain ⟨htrunc', hrest⟩ := h'.closed htrunc
    obtain ⟨htrunc'', hfirst⟩ := h.closed htrunc'
    refine ⟨htrunc'', List.forall_mem_cons.mpr ⟨?_, hrest⟩⟩
    exact (hfirst t List.mem_cons_self).mono h'.grows

omit [EntryOrder] in
theorem mem_fired_iff {fired : List String} {t other : String} :
    other ∈ (if fired.contains t then fired else t :: fired) ↔ other ∈ fired ∨ other ∈ [t] := by
  rw [List.mem_singleton]
  split_ifs with h
  · rw [List.contains_iff_mem] at h
    exact ⟨Or.inl, fun h' => h'.elim id fun heq => heq ▸ h⟩
  · rw [List.mem_cons, or_comm]

/-- Following a transition out of a marking adds the marking that it leads to, unless it
is known, or notices that there is no more room for it. -/
theorem follow_spec {f : Finding α} (hm : e.Reaches f.marking) {t : String}
    (ht : e.isEnabledIn f.marking t = true) {left : List (Finding α)} {s : Search α}
    (hf : ∀ place, f.lastChange place ≤ s.firings) (hk : Knows e limit (left ++ s.waiting) s) :
    Knows e limit (left ++ (follow e limit f s t).waiting) (follow e limit f s t) ∧
      Followed e f [t] s (follow e limit f s t) := by
  have hfired : ∀ other, other ∈ (if s.fired.contains t then s.fired else t :: s.fired) ↔
      other ∈ s.fired ∨ other ∈ [t] := fun _ => mem_fired_iff
  have hsucc : e.Reaches (f.fire e t (s.firings + 1)).marking := .fire hm ht
  have hchanged : ∀ place, (f.fire e t (s.firings + 1)).lastChange place ≤ s.firings + 1 := by
    intro place
    have hplace := hf place
    rw [Finding.lastChange_fire]
    split_ifs <;> omega
  have hsees : ∀ s' : Search α, (f.fire e t (s.firings + 1)).key e ∈ s'.visited →
      ∀ t' ∈ [t], s'.Sees e f t' := fun s' hkey => List.forall_mem_singleton.mpr
    ⟨s.firings + 1, fun place => Nat.lt_succ_of_le (hf place), hkey⟩
  unfold follow
  simp only
  generalize (if s.fired.contains t then s.fired else t :: s.fired) = fired at hfired ⊢
  generalize f.fire e t (s.firings + 1) = next at hsucc hchanged hsees ⊢
  split_ifs with hknown hroom
  · -- the marking is known
    exact ⟨hk.mono rfl (Nat.le_succ _) hk.full,
      ⟨rfl, Nat.le_succ _, hfired, fun _ h => h,
        fun h => ⟨h, hsees _ (Std.HashSet.mem_iff_contains.mpr hknown)⟩⟩⟩
  · -- there are as many markings as the limit allows
    have hnew : next.key e ∉ s.visited := fun h => hknown (Std.HashSet.mem_iff_contains.mp h)
    have hlength : (left ++ s.waiting).length = limit := le_antisymm hk.le (hk.size ▸ hroom)
    exact ⟨hk.mono rfl (Nat.le_succ _) fun _ => ⟨hlength, next, hsucc, hnew⟩,
      ⟨rfl, Nat.le_succ _, hfired, fun _ h => h, fun h => Bool.noConfusion h⟩⟩
  · -- the marking is new
    have hnew : next.key e ∉ s.visited := fun h => hknown (Std.HashSet.mem_iff_contains.mp h)
    have hlist : left ++ (s.queue ++ (next :: s.found).reverse) =
        (left ++ s.waiting) ++ [next] := by
      simp [waiting]
    refine ⟨?_, ⟨rfl, Nat.le_succ _, hfired, fun key h => ?_, fun h => ⟨h, hsees _ ?_⟩⟩⟩
    · rw [waiting, hlist]
      exact hk.add hsucc hnew (Nat.lt_of_not_le hroom) hchanged rfl (Nat.le_succ _) rfl
    · exact Std.HashSet.mem_insert.mpr (Or.inr h)
    · exact Std.HashSet.mem_insert_self

theorem foldl_follow_spec {f : Finding α} (hm : e.Reaches f.marking) {left : List (Finding α)}
    {ts : List String} :
    ∀ {s : Search α}, (∀ t ∈ ts, e.isEnabledIn f.marking t = true) →
      (∀ place, f.lastChange place ≤ s.firings) → Knows e limit (left ++ s.waiting) s →
      Knows e limit (left ++ (ts.foldl (follow e limit f) s).waiting)
          (ts.foldl (follow e limit f) s) ∧
        Followed e f ts s (ts.foldl (follow e limit f) s) := by
  induction ts with
  | nil => intro s _ _ hk; exact ⟨hk, .nil f s⟩
  | cons t rest ih =>
    intro s hts hf hk
    obtain ⟨ht, hrest⟩ := List.forall_mem_cons.mp hts
    obtain ⟨hk', hfirst⟩ := follow_spec hm ht hf hk
    obtain ⟨hk'', hmore⟩ := ih hrest (fun place => (hf place).trans hfirst.firings) hk'
    exact ⟨hk'', hfirst.cons hmore⟩

/-! ### Leaving markings -/

open Classical in
/-- The invariant of a search that has left some markings: besides what it knows, it has
reported those of them in which nothing can fire and what can fire in the others, and
unless it is cut off it knows every marking that they lead to. -/
structure Inv (e : Engine α) (limit : ℕ) (left : List (Finding α)) (s : Search α) : Prop where
  knows : Knows e limit (left ++ s.waiting) s
  dead : s.dead.reverse = (left.map (·.marking)).filter fun m => decide (e.IsDead m)
  fired : ∀ t, t ∈ s.fired ↔ ∃ f ∈ left, e.isEnabledIn f.marking t = true
  closed : s.truncated = false → ∀ f ∈ left, ∀ t, e.isEnabledIn f.marking t = true →
    s.Sees e f t

theorem inv_leave {left : List (Finding α)} {s s' : Search α} {f : Finding α}
    (h : Inv e limit left s) (hnext : s.next? = some (f, s')) :
    Inv e limit (left ++ [f]) (leave e limit f s') := by
  obtain ⟨hwait, queue, found, hs'⟩ := next?_eq_some hnext
  have hlist : left ++ s.waiting = (left ++ [f]) ++ s'.waiting := by rw [hwait]; simp
  have hk : Knows e limit ((left ++ [f]) ++ s'.waiting) s' := by
    rw [← hlist, hs']
    exact h.knows.mono rfl le_rfl h.knows.full
  have hmem : f ∈ (left ++ [f]) ++ s'.waiting := by simp
  have hm : e.Reaches f.marking := hk.reached f hmem
  have hdead' : s'.dead = s.dead := by rw [hs']
  have hfired' : s'.fired = s.fired := by rw [hs']
  have hvisited' : s'.visited = s.visited := by rw [hs']
  have htruncated' : s'.truncated = s.truncated := by rw [hs']
  have hgrows : ∀ key, key ∈ s.visited → key ∈ s'.visited := fun _ hkey => hvisited' ▸ hkey
  unfold leave
  split
  · -- nothing can fire
    rename_i hnil
    have hd : e.IsDead f.marking := Engine.filter_enabled_eq_nil_iff.mp hnil
    refine ⟨hk.mono rfl le_rfl hk.full, ?_, fun t => ?_, fun htrunc f' hf' t ht => ?_⟩
    · rw [List.reverse_cons, hdead', h.dead, List.map_append, List.filter_append]
      simp [hd]
    · rw [hfired', h.fired]
      simp [or_and_right, exists_or, hd t]
    · rcases List.mem_append.mp hf' with hf' | hf'
      · exact (h.closed (htruncated' ▸ htrunc) f' hf' t ht).mono hgrows
      · rw [List.mem_singleton.mp hf', hd t] at ht
        exact Bool.noConfusion ht
  · -- every transition that can fire is followed
    rename_i hne
    have hlive : ¬e.IsDead f.marking := fun hd => hne (Engine.filter_enabled_eq_nil_iff.mpr hd)
    obtain ⟨hk', hf⟩ := foldl_follow_spec hm (fun t ht => Engine.mem_enabled_iff.mp ht)
      (hk.changed f hmem) hk
    refine ⟨hk', ?_, fun t => ?_, fun htrunc f' hf' t ht => ?_⟩
    · rw [hf.dead, hdead', h.dead, List.map_append, List.filter_append]
      simp [hlive]
    · rw [hf.fired, hfired', h.fired, Engine.mem_enabled_iff]
      simp [or_and_right, exists_or]
    · obtain ⟨htrunc', hall⟩ := hf.closed htrunc
      rcases List.mem_append.mp hf' with hf' | hf'
      · exact ((h.closed (htruncated' ▸ htrunc') f' hf' t ht).mono hgrows).mono hf.grows
      · rw [List.mem_singleton.mp hf'] at ht ⊢
        exact hall t (Engine.mem_enabled_iff.mpr ht)

/-- With fuel for all markings that may be found, a search leaves every marking that it
finds. -/
theorem inv_run {fuel : ℕ} :
    ∀ {left : List (Finding α)} {s : Search α}, Inv e limit left s →
      limit ≤ left.length + fuel →
      ∃ left', Inv e limit left' (run e limit fuel s) ∧ (run e limit fuel s).waiting = [] := by
  induction fuel with
  | zero =>
    intro left s h hfuel
    have hle := h.knows.le
    rw [List.length_append] at hle
    exact ⟨left, h, List.eq_nil_of_length_eq_zero (by change s.waiting.length = 0; omega)⟩
  | succ fuel ih =>
    intro left s h hfuel
    unfold run
    split
    · rename_i hnone
      exact ⟨left, h, waiting_of_next?_eq_none hnone⟩
    · rename_i f s' hsome
      refine ih (inv_leave h hsome) ?_
      rw [List.length_append, List.length_singleton]
      omega

theorem inv_start (e : Engine α) {limit : ℕ} (hl : 1 ≤ limit) : Inv e limit [] (start e) := by
  refine ⟨⟨⟨_, List.mem_singleton_self _, rfl⟩, ?_, ?_, ?_, fun key => ?_, ?_, ?_,
    fun h => Bool.noConfusion h⟩, rfl, fun t => ?_, ?_⟩
  · intro f hf
    rw [List.mem_singleton.mp hf]
    exact .here
  · intro f hf place
    rw [List.mem_singleton.mp hf]
    exact Nat.zero_le _
  · exact List.nodup_singleton _
  · rw [start, Std.HashSet.mem_insert, beq_iff_eq]
    change _ ↔ key ∈ [Finding.key e ⟨e.marking, []⟩]
    rw [List.mem_singleton, eq_comm, or_iff_left Std.HashSet.not_mem_empty]
  · rw [start, Std.HashSet.size_insert]
    simp [waiting]
  · exact hl
  · simp [start]
  · intro _ f hf
    cases hf

section Done

variable {left : List (Finding α)} {s : Search α} (h : Inv e limit left s)
  (hdone : s.waiting = []) (htrunc : s.truncated = false)

include h hdone htrunc

omit [LawfulBEq α] in
/-- A search that is done and was not cut off has left what each marking that it left leads to. -/
theorem Inv.exists_next {f : Finding α} (hf : f ∈ left) {t : String}
    (ht : e.isEnabledIn f.marking t = true) : ∃ f' ∈ left, ∃ firing,
      (∀ place, f.lastChange place < firing) ∧ f'.key e = (f.fire e t firing).key e := by
  obtain ⟨firing, hlater, hkey⟩ := h.closed htrunc f hf t ht
  have hkeys := h.knows.keys
  rw [hdone, List.append_nil] at hkeys
  obtain ⟨f', hf', heq⟩ := List.mem_map.mp ((hkeys _).mp hkey)
  exact ⟨f', hf', firing, hlater, heq⟩

omit [LawfulBEq α] in
/-- So it has left every marking that firing can reach. -/
theorem Inv.exists_marking (htoken : e.accounting = false) (hc : e.Covers)
    (hn : e.net.placeNames.Nodup) {m : Marking α} (hm : e.Reaches m) :
    ∃ f ∈ left, f.marking = m := by
  have hknows := h.knows
  rw [hdone, List.append_nil] at hknows
  induction hm with
  | here => exact hknows.start
  | fire hm ht ih =>
    obtain ⟨f, hf, rfl⟩ := ih
    obtain ⟨f', hf', firing, -, heq⟩ := h.exists_next hdone htrunc hf ht
    exact ⟨f', hf', (hknows.reached f' hf').ext htoken hc hn (hm.fire ht)
      fun place hp => Finding.get_eq_of_key_eq heq place hp⟩

end Done

end Search

/-! ### Reports -/

theorem encard_mem_list {β : Type} {l : List β} (h : l.Nodup) :
    Set.encard {x | x ∈ l} = l.length := by
  classical
  rw [← List.coe_toFinset, Set.encard_coe_eq_coe_finsetCard, List.toFinset_card_of_nodup h]

theorem encard_mem_list_le {β : Type} (l : List β) : Set.encard {x | x ∈ l} ≤ l.length := by
  classical
  rw [← List.coe_toFinset, Set.encard_coe_eq_coe_finsetCard]
  exact_mod_cast l.toFinset_card_le

namespace ReachabilityReport

variable {α : Type} [Quantity α] [EntryOrder]

open Classical in
/-- A report on the markings that a search has left. They are all that firing can reach, or as
many as a limit allows; unless some count may be undefined they differ from each other, and a
search that is cut off has missed one. -/
structure IsOn (r : ReachabilityReport α) (e : Engine α) (limit : ℕ) (left : List (Marking α)) :
    Prop where
  reached : ∀ m ∈ left, e.Reaches m
  states : r.states = left.length
  le : left.length ≤ limit
  dead : r.deadMarkings = left.filter fun m => decide (e.IsDead m)
  fireable : r.fireable = e.net.transitionNames.filter fun t => left.any (e.isEnabledIn · t)
  unfired : r.unfired = e.net.transitionNames.filter fun t => !left.any (e.isEnabledIn · t)
  all : r.truncated = false → ∀ m, e.Reaches m → m ∈ left
  full : r.truncated = true → left.length = limit
  nodup : e.StaysDefined → left.Nodup
  more : e.StaysDefined → r.truncated = true → ∃ m, e.Reaches m ∧ m ∉ left

open Classical in
/-- A report on all markings that firing can reach. -/
structure IsComplete (r : ReachabilityReport α) (e : Engine α) : Prop where
  states : e.reachedSet.encard ≤ r.states
  mem_dead : ∀ m, m ∈ r.deadMarkings ↔ m ∈ e.reachedSet ∧ e.IsDead m
  fireable : r.fireable = e.net.transitionNames.filter fun t => decide (e.CanFire t)
  unfired : r.unfired = e.net.transitionNames.filter fun t => !decide (e.CanFire t)

/-- A report on as many of the markings that firing can reach as a limit allows. -/
structure IsCutOff (r : ReachabilityReport α) (e : Engine α) (limit : ℕ) : Prop where
  states : r.states = limit
  dead : ∀ m ∈ r.deadMarkings, m ∈ e.reachedSet ∧ e.IsDead m
  fireable : ∀ t ∈ r.fireable, e.CanFire t

/-- A report that counts every marking once, and is cut off exactly when there are more markings
than its limit. -/
structure IsExact (r : ReachabilityReport α) (e : Engine α) (limit : ℕ) : Prop where
  truncated_iff : r.truncated = true ↔ (limit : ℕ∞) < e.reachedSet.encard
  states : r.truncated = false → e.reachedSet.encard = r.states
  dead_nodup : r.deadMarkings.Nodup

variable {r : ReachabilityReport α} {e : Engine α} {limit : ℕ} {left : List (Marking α)}

theorem IsOn.reachedSet_eq (h : r.IsOn e limit left) (htrunc : r.truncated = false) :
    e.reachedSet = {m | m ∈ left} := Set.Subset.antisymm (h.all htrunc) h.reached

theorem IsOn.isComplete (h : r.IsOn e limit left) (htrunc : r.truncated = false) :
    r.IsComplete e := by
  classical
  have hmem : ∀ m, m ∈ left ↔ m ∈ e.reachedSet := fun m => by rw [h.reachedSet_eq htrunc]; rfl
  have hfires : ∀ t, left.any (e.isEnabledIn · t) = decide (e.CanFire t) := fun t => by
    rw [Bool.eq_iff_iff, List.any_eq_true, decide_eq_true_iff]
    exact exists_congr fun m => and_congr_left fun _ => hmem m
  refine ⟨?_, fun m => ?_, ?_, ?_⟩
  · rw [h.reachedSet_eq htrunc, h.states]
    exact encard_mem_list_le left
  · rw [h.dead, List.mem_filter, decide_eq_true_iff, hmem]
  · rw [h.fireable]
    exact List.filter_congr fun t _ => hfires t
  · rw [h.unfired]
    exact List.filter_congr fun t _ => by rw [hfires]

theorem IsOn.isCutOff (h : r.IsOn e limit left) (htrunc : r.truncated = true) :
    r.IsCutOff e limit := by
  classical
  refine ⟨h.states.trans (h.full htrunc), fun m hm => ?_, fun t ht => ?_⟩
  · rw [h.dead, List.mem_filter, decide_eq_true_iff] at hm
    exact ⟨h.reached m hm.1, hm.2⟩
  · rw [h.fireable, List.mem_filter, List.any_eq_true] at ht
    obtain ⟨-, m, hm, hen⟩ := ht
    exact ⟨m, h.reached m hm, hen⟩

theorem IsOn.truncated_of_lt (h : r.IsOn e limit left) (hlt : (limit : ℕ∞) < e.reachedSet.encard) :
    r.truncated = true := by
  by_contra hfalse
  have hall := (h.isComplete (Bool.eq_false_iff.mpr hfalse)).states
  refine absurd (hlt.trans_le hall) (not_lt.mpr ?_)
  rw [h.states]
  exact_mod_cast h.le

theorem IsOn.isExact (h : r.IsOn e limit left) (hdefined : e.StaysDefined) :
    r.IsExact e limit := by
  have hcard : Set.encard {m | m ∈ left} = left.length := encard_mem_list (h.nodup hdefined)
  refine ⟨⟨fun htrunc => ?_, h.truncated_of_lt⟩, fun htrunc => ?_, ?_⟩
  · obtain ⟨m, hm, hnew⟩ := h.more hdefined htrunc
    have hinsert : insert m {m | m ∈ left} ⊆ e.reachedSet := Set.insert_subset hm h.reached
    calc (limit : ℕ∞) < limit + 1 := by exact_mod_cast Nat.lt_succ_self limit
      _ = (insert m {m | m ∈ left}).encard := by
        rw [Set.encard_insert_of_notMem (s := {m | m ∈ left}) hnew, hcard, h.full htrunc]
      _ ≤ e.reachedSet.encard := Set.encard_le_encard hinsert
  · rw [h.reachedSet_eq htrunc, hcard, h.states]
  · rw [h.dead]
    exact (h.nodup hdefined).filter _

end ReachabilityReport

namespace Engine

variable {α : Type} [BEq α] [LawfulBEq α] [Hashable α] [Quantity α] [EntryOrder]

open Classical in
/-- A search ends with the markings that it has left. -/
theorem exists_isOn_reachable {e : Engine α} (htoken : e.accounting = false) (hc : e.Covers)
    (hn : e.net.placeNames.Nodup) {limit : ℕ} (hl : 1 ≤ limit) :
    ∃ left, (e.reachable limit).IsOn e limit left := by
  obtain ⟨left, hinv, hdone⟩ := Search.inv_run (Search.inv_start e hl)
    (show limit ≤ ([] : List (Finding α)).length + limit by simp)
  set s := Search.run e limit limit (Search.start e)
  have ⟨hknows, hdead, hfired, _⟩ := hinv
  rw [hdone, List.append_nil] at hknows
  have hfilter : ∀ t, s.fired.contains t =
      (left.map (·.marking)).any (e.isEnabledIn · t) := fun t => by
    rw [Bool.eq_iff_iff, List.contains_iff_mem, hfired, List.any_map, List.any_eq_true]
    rfl
  have hreached : ∀ m ∈ left.map (·.marking), e.Reaches m := by
    rintro m hm
    obtain ⟨f, hf, rfl⟩ := List.mem_map.mp hm
    exact hknows.reached f hf
  -- where all counts are numbers, a key is that of a marking
  have hkeys (hdefined : e.StaysDefined) (f : Finding α) (hf : e.Reaches f.marking) :
      f.key e = e.net.placeNames.map fun place => (f.marking.get place, none) :=
    Finding.key_eq_of_isNumber (hdefined _ hf)
  refine ⟨left.map (·.marking), hreached, ?_, ?_, ?_, ?_, ?_, fun htrunc m hm => ?_,
    fun htrunc => ?_, fun hdefined => ?_, fun hdefined htrunc => ?_⟩
  · rw [List.length_map]
    exact hknows.size
  · rw [List.length_map]
    exact hknows.le
  · exact hdead
  · exact List.filter_congr fun t _ => hfilter t
  · exact List.filter_congr fun t _ => by rw [hfilter]
  · exact List.mem_map.mpr (hinv.exists_marking hdone htrunc htoken hc hn hm)
  · rw [List.length_map]
    exact (hknows.full htrunc).1
  · have hmap : left.map (·.key e) = (left.map (·.marking)).map fun m : Marking α =>
        e.net.placeNames.map fun place => (m.get place, (none : Option ℕ)) := by
      rw [List.map_map]
      exact List.map_congr_left fun f hf => hkeys hdefined f (hknows.reached f hf)
    exact (hmap ▸ hknows.nodup).of_map _
  · obtain ⟨-, f, hf, hkey⟩ := hknows.full htrunc
    refine ⟨f.marking, hf, fun hmem => hkey ((hknows.keys _).mpr ?_)⟩
    obtain ⟨f', hf', heq⟩ := List.mem_map.mp hmem
    refine List.mem_map.mpr ⟨f', hf', ?_⟩
    rw [hkeys hdefined f hf, hkeys hdefined f' (hknows.reached f' hf'), heq]

/-- A transition that changes nothing but computes a count anew that is no number cuts off every
search: the marking is found again and again, each time from a later firing. -/
theorem truncated_reachable {e : Engine α} (htoken : e.accounting = false) (hc : e.Covers)
    (hn : e.net.placeNames.Nodup) {limit : ℕ} (hl : 1 ≤ limit) {m : Marking α} (hm : e.Reaches m)
    {t : String} (ht : e.isEnabledIn m t = true) (hloop : e.successor m t = m) {place : String}
    (hplace : place ∈ e.net.placeNames) (hchanged : place ∈ (e.net.postings t).map (·.account))
    (hundefined : Quantity.isNumber (m.get place) = false) :
    (e.reachable limit).truncated = true := by
  obtain ⟨left, hinv, hdone⟩ := Search.inv_run (Search.inv_start e hl)
    (show limit ≤ ([] : List (Finding α)).length + limit by simp)
  by_contra htrunc
  rw [Bool.not_eq_true] at htrunc
  have hlater : ∀ k, ∃ f ∈ left, f.marking = m ∧ k ≤ f.lastChange place := by
    intro k
    induction k with
    | zero =>
      obtain ⟨f, hf, heq⟩ := hinv.exists_marking hdone htrunc htoken hc hn hm
      exact ⟨f, hf, heq, Nat.zero_le _⟩
    | succ k ih =>
      obtain ⟨f, hf, rfl, hk⟩ := ih
      obtain ⟨f', hf', firing, hfiring, hkey⟩ := hinv.exists_next hdone htrunc hf ht
      have hsame : f'.marking = f.marking := by
        refine (hinv.knows.reached f' (List.mem_append_left _ hf')).ext htoken hc hn hm
          fun other hother => ?_
        rw [Finding.get_eq_of_key_eq hkey other hother]
        exact congrArg (Marking.get · other) hloop
      have hchange := Finding.lastChange_eq_of_key_eq hkey hplace (hsame ▸ hundefined)
      rw [Finding.lastChange_fire, if_pos hchanged] at hchange
      have hplaceLater := hfiring place
      exact ⟨f', hf', hsame, by omega⟩
  obtain ⟨f, hf, -, hk⟩ := hlater ((Search.run e limit limit (Search.start e)).firings + 1)
  have hle := hinv.knows.changed f (List.mem_append_left _ hf) place
  omega

end Engine

namespace Engine

variable [EntryOrder] {e : Engine Number} {g : Graph}

/-- From finite or infinitely large counts finite weights lead to no others. -/
theorem staysDefined_of_takesFinite (ho : e.IsOf g false) (hfinite : e.TakesFinite)
    (hm : e.marking.HoldsTallies) : e.StaysDefined := by
  have hreached : ∀ m, e.Reaches m → m.HoldsTallies := by
    intro m h
    induction h with
    | here => exact hm
    | fire _ ht ih => exact holdsTallies_successor ho hfinite ih ht
  exact fun m h place _ => Number.isNumber_iff.mpr (hreached m h place).1

end Engine

theorem Engine.encard_reachedSet_le {α : Type} [Quantity α] [EntryOrder] {e : Engine α}
    {left : List (Marking α)} (hstart : e.marking ∈ left)
    (hclosed : ∀ m ∈ left, ∀ t ∈ e.net.transitionNames, e.isEnabledIn m t = true →
      e.successor m t ∈ left) : e.reachedSet.encard ≤ left.length := by
  have hsub : e.reachedSet ⊆ {m | m ∈ left} := by
    intro m hm
    induction hm with
    | here => exact hstart
    | fire _ ht ih => exact hclosed _ ih _ (mem_transitionNames_of_isEnabledIn ht) ht
  exact (Set.encard_le_encard hsub).trans (encard_mem_list_le left)

/-- **A search of a simulated token net** comes to its end after any requests, and for any limit
of at least one marking. If it is not cut off, it has found every marking that firing can reach
from the one it starts in, lists those in which nothing can fire, and tells the transitions that
can fire in one of them from those that cannot. If it is, it has found as many as the limit, and
everything it lists holds nevertheless; it is, if firing can reach more markings than that. Where
all summed input weights are finite it is **exact**: it counts every marking once, and is cut off
only if there are more of them than the limit. -/
theorem Simulation.explore_exact [EntryOrder] {g : Graph} {tokens : Option Number}
    {mode : Option Bool} {settings : SimulationSettings} {s : Simulation}
    (hs : (start g tokens mode settings).1 = .ok s) (htoken : s.engine.accounting = false)
    (requests : List Request) {limit : Number} {n : ℕ} (hlimit : limit.wholePart = .ok n)
    (hn : 1 ≤ n) :
    ∃ r, (s.run requests).engine.explore limit = .ok r ∧
      (r.truncated = false → r.IsComplete (s.run requests).engine) ∧
      (r.truncated = true → r.IsCutOff (s.run requests).engine n) ∧
      ((n : ℕ∞) < (s.run requests).engine.reachedSet.encard → r.truncated = true) ∧
      ((s.run requests).engine.TakesFinite → r.IsExact (s.run requests).engine n) := by
  obtain ⟨ho, hc⟩ := covers_run hs htoken requests
  have ⟨hmode, _, _, hnet⟩ := ho
  obtain ⟨left, hleft⟩ := Engine.exists_isOn_reachable hmode hc hnet.nodup hn
  refine ⟨(s.run requests).engine.reachable n, ?_, hleft.isComplete, hleft.isCutOff,
    hleft.truncated_of_lt, fun hfinite => hleft.isExact ?_⟩
  · have hpos : ¬((n : ℤ) ≤ 0) := by omega
    rw [Engine.explore, hmode, hlimit]
    simp only [Except.mapError, bind, Except.bind, hpos]
    rfl
  · refine Engine.staysDefined_of_takesFinite ho hfinite (holdsTallies_run hs htoken ?_ requests)
    rintro e ⟨-, _, -, hnet'⟩ t ht arc harc
    rw [hnet'.transitionNames_eq, ← hnet.transitionNames_eq] at ht
    rw [Net.inputWeights, hnet'.weights_eq hnet] at harc
    exact hfinite t ht arc harc

/-- A transition that moves a token from one place to another and one that moves it back,
with a third transition that would need two tokens in the second place. -/
def shuttleGraph : Graph :=
  let node (id role : String) : Node :=
    { id, baseName := id, name := id, displayName := id, role
      basic := ⟨id ++ "_morph_basic", id, "basic", [], []⟩ }
  { nodes := [node "here" "class", node "there" "class", node "go" "Transition",
      node "back" "Transition", node "pair" "Transition"]
    edges := [
      ⟨"1", "go", "here", priorState, .int 1, []⟩, ⟨"2", "go", "there", postState, .int 1, []⟩,
      ⟨"3", "back", "there", priorState, .int 1, []⟩, ⟨"4", "back", "here", postState, .int 1, []⟩,
      ⟨"5", "pair", "there", priorState, .int 2, []⟩] }

theorem explore_shuttleGraph :
    ∃ s, (Simulation.start shuttleGraph none none {}).1 = .ok s ∧ s.engine.accounting = false ∧
      (Number.int 5).wholePart = .ok (5 : ℕ) ∧ 1 ≤ 5 ∧
      (s.run [.fire "back"]).engine.TakesFinite ∧
      ∃ r, (s.run [.fire "back"]).engine.explore (.int 5) = .ok r ∧
        (r.truncated = false → r.IsComplete (s.run [.fire "back"]).engine) ∧
        (r.truncated = true → r.IsCutOff (s.run [.fire "back"]).engine 5) ∧
        (((5 : ℕ) : ℕ∞) < (s.run [.fire "back"]).engine.reachedSet.encard →
          r.truncated = true) ∧
        r.IsExact (s.run [.fire "back"]).engine 5 := by
  obtain ⟨s, hs, htoken, hfinite⟩ := exists_ok_of_any
    (x := (Simulation.start shuttleGraph none none {}).1)
    (p := fun s => s.engine.accounting = false ∧ (s.run [.fire "back"]).engine.TakesFinite)
    (by decide +kernel)
  have hlimit : (Number.int 5).wholePart = .ok (5 : ℕ) := rfl
  obtain ⟨r, hr, hcomplete, hcut, hmore, hexact⟩ :=
    Simulation.explore_exact hs htoken [.fire "back"] hlimit (by decide)
  exact ⟨s, hs, htoken, hlimit, by decide, hfinite, r, hr, hcomplete, hcut, hmore, hexact hfinite⟩

/-- A transition that floods a place as often as another place holds a token, and one that takes
from the flooded place an infinite sum of finite weights. -/
def floodGraph : Graph :=
  let node (id role : String) : Node :=
    { id, baseName := id, name := id, displayName := id, role
      basic := ⟨id ++ "_morph_basic", id, "basic", [], []⟩ }
  let huge : Number := .int (Nat.pow 10 308)
  { nodes := [node "valve" "class", node "pool" "class", node "flood" "Transition",
      node "drain" "Transition"]
    edges := [
      ⟨"1", "flood", "valve", priorState, .int 1, []⟩,
      ⟨"2", "flood", "valve", postState, .int 1, []⟩,
      ⟨"3", "flood", "pool", postState, huge, []⟩, ⟨"4", "flood", "pool", postState, huge, []⟩,
      ⟨"5", "drain", "pool", priorState, huge, []⟩, ⟨"6", "drain", "pool", priorState, huge, []⟩] }

/-- There are three markings, but the search is cut off: once the pool holds no number, flooding it
leads to the same marking, and the search takes it for another one. -/
theorem explore_floodGraph :
    ∃ s, (Simulation.start floodGraph none none {}).1 = .ok s ∧ s.engine.accounting = false ∧
      (∀ a ∈ s.engine.net.arcs, a.weight.toBinary64.isFinite = true) ∧
      s.engine.reachedSet.encard ≤ (3 : ℕ) ∧
      ∃ r, s.engine.explore (.int 10) = .ok r ∧ r.truncated = true := by
  let flooded : Marking Number := [("valve", .int 1), ("pool", .float (.infinite false))]
  let drained : Marking Number := [("valve", .int 1), ("pool", .float .undefined)]
  obtain ⟨s, hs, ⟨hmode, harcs⟩, hclosed, ⟨hflood, hflooded⟩, ⟨hdrain, hdrained⟩,
      ⟨hagain, hloop⟩, hpool, hchanged⟩ :=
    exists_ok_of_any (x := (Simulation.start floodGraph none none {}).1) (p := fun s =>
      (s.engine.accounting = false ∧
        ∀ a ∈ s.engine.net.arcs, a.weight.toBinary64.isFinite = true) ∧
      (∀ m ∈ [s.engine.marking, flooded, drained], ∀ t ∈ s.engine.net.transitionNames,
        s.engine.isEnabledIn m t = true →
          s.engine.successor m t ∈ [s.engine.marking, flooded, drained]) ∧
      (s.engine.isEnabledIn s.engine.marking "flood" = true ∧
        s.engine.successor s.engine.marking "flood" = flooded) ∧
      (s.engine.isEnabledIn flooded "drain" = true ∧
        s.engine.successor flooded "drain" = drained) ∧
      (s.engine.isEnabledIn drained "flood" = true ∧
        s.engine.successor drained "flood" = drained) ∧
      "pool" ∈ s.engine.net.placeNames ∧
      "pool" ∈ (s.engine.net.postings "flood").map (·.account)) (by decide +kernel)
  obtain ⟨⟨-, _, -, hnet⟩, hc⟩ := Simulation.covers_run hs hmode []
  have hreached : s.engine.Reaches drained :=
    hdrained ▸ (hflooded ▸ Engine.Reaches.here.fire hflood : s.engine.Reaches flooded).fire hdrain
  refine ⟨s, hs, hmode, harcs, Engine.encard_reachedSet_le List.mem_cons_self hclosed,
    s.engine.reachable 10, ?_, ?_⟩
  · rw [Engine.explore, hmode]
    rfl
  · exact Engine.truncated_reachable hmode hc hnet.nodup (by decide) hreached hagain hloop hpool
      hchanged rfl

end NoteGraph
