import Mathlib.Data.Finset.Lattice.Fold
import Mathlib.Data.List.Pairwise
import Mathlib.Data.Nat.Count
import Mathlib.Order.Lattice.Nat
import NoteGraph.Proofs.Operation.Grants

/-!
# Parallel records line up

Records that all claim one base identifier share the candidates among their signatures: a
candidate belongs to the signature that it was first given for. In every scope the records
of a signature take the candidates of the signature in order, without leaving one out. So
the `j`-th record of a signature has the same identifier in whatever scope it stands, and a
signature needs as many identifiers as it has records in the scope where it has most.
-/

namespace NoteGraph.Session

open Classical in
/-- The numbers below a bound that have a property, in the sense of `Nat.count`. -/
theorem count_congr_of_lt {p q : ℕ → Prop} {n : ℕ} (h : ∀ k < n, p k ↔ q k) :
    Nat.count p n = Nat.count q n := by
  rw [Nat.count_eq_card_filter_range, Nat.count_eq_card_filter_range]
  congr 1
  exact Finset.filter_congr fun k hk => h k (Finset.mem_range.mp hk)

variable {σ : Type} [BEq σ]

/-- The grants of records that all claim one base identifier, each with a scope and a
signature. -/
def grantsOf (baseId : String) (records : List (Option String × σ)) : List (Grant σ) :=
  (empty : Session σ).grants (records.map fun r => ⟨baseId, r.1, r.2⟩)

/-- How many of some grants are in the scope of a record and for its signature. -/
def earlier (before : List (Grant σ)) (g : Grant σ) : ℕ :=
  before.countP fun g' => g'.scope == g.scope && g'.signature == g.signature

/-- A candidate that was given for a signature. -/
def IsGivenFor (baseId : String) (gs : List (Grant σ)) (signature : σ) (n : ℕ) : Prop :=
  ∃ g ∈ gs, g.id = candidate baseId n ∧ (g.signature == signature) = true

/-- The identifiers of those grants that a test selects. -/
def idsWhere (gs : List (Grant σ)) (p : Grant σ → Bool) : Finset String :=
  ((gs.filter p).map (·.id)).toFinset

omit [BEq σ] in
theorem mem_idsWhere {gs : List (Grant σ)} {p : Grant σ → Bool} {id : String} :
    id ∈ idsWhere gs p ↔ ∃ g ∈ gs, p g = true ∧ g.id = id := by
  simp [idsWhere, and_assoc]

/-- Grants of one base identifier, each the first that was open. -/
structure AreParallel (baseId : String) (gs : List (Grant σ)) : Prop where
  base : ∀ g ∈ gs, g.baseId = baseId
  first : ∀ i (hi : i < gs.length), IsFirstOpen (gs.take i) gs[i]

theorem areParallel_grantsOf [PartialEquivBEq σ] (baseId : String)
    (records : List (Option String × σ)) : AreParallel baseId (grantsOf baseId records) := by
  refine ⟨fun g hg => ?_, Records.empty.forall_isFirstOpen _⟩
  have hclaimant := List.mem_map_of_mem (f := Grant.toClaimant) hg
  rw [grantsOf, map_toClaimant_grants] at hclaimant
  obtain ⟨r, -, hr⟩ := List.mem_map.mp hclaimant
  rw [← hr]

namespace AreParallel

variable {baseId : String} {gs : List (Grant σ)}

/-! ### The candidates of a signature -/

/-- What a grant got, with what was open to it and what was not. -/
theorem exists_number (h : AreParallel baseId gs) {i : ℕ} (hi : i < gs.length) :
    ∃ n ≤ i, gs[i].id = candidate baseId n ∧
      IsOpen (gs.take i) gs[i].toClaimant (candidate baseId n) ∧
      ∀ k < n, ¬IsOpen (gs.take i) gs[i].toClaimant (candidate baseId k) := by
  obtain ⟨n, hn, hid, hopen, hbefore⟩ := h.first i hi
  have hbase : gs[i].baseId = baseId := h.base _ (List.getElem_mem hi)
  rw [hbase] at hid hbefore
  rw [List.length_take] at hn
  exact ⟨n, by omega, hid, hid ▸ hopen, hbefore⟩

/-- A candidate that is passed over was given before, in the same scope or for another
signature. -/
theorem exists_taken {before : List (Grant σ)} {c : Claimant σ} {id : String}
    (hclosed : ¬IsOpen before c id) :
    ∃ g ∈ before, g.id = id ∧ (g.scope = c.scope ∨ ¬(g.signature == c.signature) = true) := by
  unfold IsOpen at hclosed
  push Not at hclosed
  obtain ⟨g, hg, hid, hor⟩ := hclosed
  refine ⟨g, hg, hid, ?_⟩
  by_cases hscope : g.scope = c.scope
  · exact Or.inl hscope
  · exact Or.inr (hor hscope)

variable [PartialEquivBEq σ]

/-- Who shares an identifier shares the signatures it is equal to. -/
theorem signature_eq (h : AreParallel baseId gs) {g g' : Grant σ} (hg : g ∈ gs) (hg' : g' ∈ gs)
    (hid : g.id = g'.id) (signature : σ) :
    (g.signature == signature) = (g'.signature == signature) := by
  let Agree (a b : Grant σ) : Prop :=
    a.id = b.id → (a.signature == signature) = (b.signature == signature)
  have hsymm : Std.Symm Agree := ⟨fun a b hab hba => (hab hba.symm).symm⟩
  have hpairs : gs.Pairwise Agree := (pairwise_of_isFirstOpen h.first).imp fun hab heq =>
    BEq.congr_left (hab heq).2
  exact hpairs.forall_of_forall (fun _ _ _ => rfl) hg hg' hid

theorem isGivenFor_congr {signature signature' : σ} (hsame : (signature == signature') = true)
    (n : ℕ) : IsGivenFor baseId gs signature n ↔ IsGivenFor baseId gs signature' n := by
  unfold IsGivenFor
  simp only [BEq.congr_right hsame]

/-- Before its own turn a grant sees all candidates below its own that are ever given for a
signature. -/
theorem isGivenFor_take (h : AreParallel baseId gs) {i n : ℕ} (hi : i < gs.length)
    (hid : gs[i].id = candidate baseId n) {k : ℕ} (hk : k < n) (signature : σ) :
    IsGivenFor baseId (gs.take i) signature k ↔ IsGivenFor baseId gs signature k := by
  constructor
  · rintro ⟨g, hg, hrest⟩
    exact ⟨g, List.mem_of_mem_take hg, hrest⟩
  · rintro ⟨g, hg, hgid, hsignature⟩
    obtain ⟨m, -, hm, -, hbefore⟩ := h.exists_number hi
    obtain rfl := candidate_injective baseId (hid.symm.trans hm)
    obtain ⟨g', hg', hgid', -⟩ := exists_taken (hbefore k hk)
    refine ⟨g', hg', hgid', ?_⟩
    rwa [h.signature_eq (List.mem_of_mem_take hg') hg (hgid'.trans hgid.symm)]

/-- A candidate below that of a grant was given for the signature of the grant exactly if it
was given before to a record of its signature in its scope. -/
theorem isGivenFor_iff_of_lt (h : AreParallel baseId gs) {i n : ℕ} (hi : i < gs.length)
    (hid : gs[i].id = candidate baseId n) {k : ℕ} (hk : k < n) :
    IsGivenFor baseId (gs.take i) gs[i].signature k ↔
      ∃ g ∈ gs.take i, (g.scope = gs[i].scope ∧ (g.signature == gs[i].signature) = true) ∧
        g.id = candidate baseId k := by
  constructor
  · rintro ⟨g, hg, hgid, hsignature⟩
    obtain ⟨m, -, hm, -, hbefore⟩ := h.exists_number hi
    obtain rfl := candidate_injective baseId (hid.symm.trans hm)
    obtain ⟨g', hg', hgid', htaken⟩ := exists_taken (hbefore k hk)
    have hsame : (g'.signature == gs[i].signature) = true := by
      rwa [h.signature_eq (List.mem_of_mem_take hg') (List.mem_of_mem_take hg)
        (hgid'.trans hgid.symm)]
    exact ⟨g', hg', ⟨htaken.resolve_right (not_not_intro hsame), hsame⟩, hgid'⟩
  · rintro ⟨g, hg, ⟨-, hsignature⟩, hgid⟩
    exact ⟨g, hg, hgid, hsignature⟩

/-- Records of one signature and scope take candidates in ascending order. -/
theorem number_lt (h : AreParallel baseId gs) {i j n m : ℕ} (hi : i < gs.length) (hji : j < i)
    (hscope : gs[j].scope = gs[i].scope)
    (hsignature : (gs[j].signature == gs[i].signature) = true)
    (hn : gs[i].id = candidate baseId n) (hm : gs[j].id = candidate baseId m) : m < n := by
  obtain ⟨n', -, hn', hopen, -⟩ := h.exists_number hi
  obtain rfl := candidate_injective baseId (hn.symm.trans hn')
  obtain ⟨m', -, hm', -, hbefore⟩ := h.exists_number (hji.trans hi)
  obtain rfl := candidate_injective baseId (hm.symm.trans hm')
  have hmem : gs[j] ∈ gs.take i := List.mem_take_iff_getElem.mpr ⟨j, by omega, rfl⟩
  by_contra hle
  rcases Nat.lt_or_eq_of_le (Nat.le_of_not_lt hle) with hlt | rfl
  · -- the earlier record would have taken the smaller candidate, which was open to it
    obtain ⟨g, hg, hgid, htaken⟩ := exists_taken (hbefore n hlt)
    have hgi : g ∈ gs.take i := List.take_subset_take_left gs hji.le hg
    obtain ⟨hother, hsame⟩ := hopen g hgi hgid
    rcases htaken with heq | hne
    · exact hother (heq.trans hscope)
    · exact hne (BEq.trans hsame (BEq.symm hsignature))
  · exact (hopen _ hmem hm).1 hscope

/-! ### Turns -/

omit [PartialEquivBEq σ] in
/-- The records of a scope have identifiers of their own. -/
theorem card_idsWhere (h : AreParallel baseId gs) {part : List (Grant σ)}
    (hpart : part.Sublist gs) {p : Grant σ → Bool} {scope : Option String}
    (hp : ∀ g ∈ part, p g = true → g.scope = scope) :
    (idsWhere part p).card = part.countP p := by
  have hsub : (part.filter p).Sublist gs := List.filter_sublist.trans hpart
  have hnodup : ((part.filter p).map (·.id)).Nodup := by
    rw [List.Nodup, List.pairwise_map]
    refine ((pairwise_of_isFirstOpen h.first).sublist hsub).imp_of_mem
      fun {a b} ha hb hab hid => ?_
    obtain ⟨ha, hpa⟩ := List.mem_filter.mp ha
    obtain ⟨hb, hpb⟩ := List.mem_filter.mp hb
    exact (hab hid).1 ((hp a ha hpa).trans (hp b hb hpb).symm)
  rw [idsWhere, List.toFinset_card_of_nodup hnodup, List.length_map, List.countP_eq_length_filter]

open Classical in
/-- **Turns**: a record is given the candidate of its signature that has as many candidates
of the signature below it as there were records of the signature before in its scope. -/
theorem count_isGivenFor (h : AreParallel baseId gs) {i n : ℕ} (hi : i < gs.length)
    (hid : gs[i].id = candidate baseId n) :
    Nat.count (IsGivenFor baseId gs gs[i].signature) n = earlier (gs.take i) gs[i] := by
  let mine (g : Grant σ) : Bool := g.scope == gs[i].scope && g.signature == gs[i].signature
  have hmine : ∀ g, mine g = true ↔
      g.scope = gs[i].scope ∧ (g.signature == gs[i].signature) = true := fun g => by
    rw [Bool.and_eq_true, beq_iff_eq]
  have hids : (idsWhere (gs.take i) mine) =
      ((Finset.range n).filter (IsGivenFor baseId (gs.take i) gs[i].signature)).image
        (candidate baseId) := by
    ext id
    rw [mem_idsWhere, Finset.mem_image]
    constructor
    · rintro ⟨g, hg, hmem, rfl⟩
      obtain ⟨hscope, hsignature⟩ := (hmine g).mp hmem
      obtain ⟨j, hj, rfl⟩ := List.mem_take_iff_getElem.mp hg
      obtain ⟨m, -, hm, -⟩ := h.exists_number (i := j) (by omega)
      have hlt := h.number_lt hi (by omega) hscope hsignature hid hm
      exact ⟨m, Finset.mem_filter.mpr ⟨Finset.mem_range.mpr hlt, _, hg, hm, hsignature⟩, hm.symm⟩
    · rintro ⟨k, hk, rfl⟩
      obtain ⟨hk, hgiven⟩ := Finset.mem_filter.mp hk
      obtain ⟨g, hg, hboth, hgid⟩ :=
        (h.isGivenFor_iff_of_lt hi hid (Finset.mem_range.mp hk)).mp hgiven
      exact ⟨g, hg, (hmine g).mpr hboth, hgid⟩
  calc Nat.count (IsGivenFor baseId gs gs[i].signature) n
      = Nat.count (IsGivenFor baseId (gs.take i) gs[i].signature) n :=
        count_congr_of_lt fun k hk => (h.isGivenFor_take hi hid hk _).symm
    _ = (idsWhere (gs.take i) mine).card := by
        rw [Nat.count_eq_card_filter_range, hids,
          Finset.card_image_of_injective _ (candidate_injective baseId)]
    _ = earlier (gs.take i) gs[i] :=
        h.card_idsWhere (List.take_sublist i gs) fun g _ hg => ((hmine g).mp hg).1

/-- Two records share an identifier exactly if they have equal signatures and it is their
turn among the records of the signature in their scopes. -/
theorem id_eq_iff (h : AreParallel baseId gs) {i j : ℕ} (hi : i < gs.length)
    (hj : j < gs.length) (hij : i ≠ j) : gs[i].id = gs[j].id ↔
      (gs[i].signature == gs[j].signature) = true ∧
        earlier (gs.take i) gs[i] = earlier (gs.take j) gs[j] := by
  classical
  obtain ⟨n, -, hn, -⟩ := h.exists_number hi
  obtain ⟨m, -, hm, -⟩ := h.exists_number hj
  rw [← h.count_isGivenFor hi hn, ← h.count_isGivenFor hj hm]
  constructor
  · intro hid
    have hsame : (gs[i].signature == gs[j].signature) = true := by
      have hpairs := List.pairwise_iff_getElem.mp (pairwise_of_isFirstOpen h.first)
      rcases Nat.lt_or_gt_of_ne hij with hlt | hlt
      · exact (hpairs i j hi hj hlt hid).2
      · exact BEq.symm (hpairs j i hj hi hlt hid.symm).2
    obtain rfl := candidate_injective baseId (hn.symm.trans (hid.trans hm))
    exact ⟨hsame, count_congr_of_lt fun k _ => isGivenFor_congr hsame k⟩
  · rintro ⟨hsame, hcount⟩
    rw [← count_congr_of_lt fun k _ => isGivenFor_congr hsame k] at hcount
    have hself : (gs[i].signature == gs[i].signature) = true := BEq.trans hsame (BEq.symm hsame)
    have heq : n = m := Nat.count_injective ⟨_, List.getElem_mem hi, hn, hself⟩
      ⟨_, List.getElem_mem hj, hm, BEq.symm hsame⟩ hcount
    rw [hn, hm, heq]

/-! ### Numbers of identifiers -/

/-- A record comes after those that were there before it. -/
theorem earlier_lt {i : ℕ} (hi : i < gs.length) {signature : σ}
    (hsame : (gs[i].signature == signature) = true) : earlier (gs.take i) gs[i] <
      gs.countP fun g => g.scope == gs[i].scope && g.signature == signature := by
  have hself : (gs.take (i + 1)).countP
      (fun g => g.scope == gs[i].scope && g.signature == signature) =
        earlier (gs.take i) gs[i] + 1 := by
    rw [List.take_succ_eq_append_getElem hi, List.countP_append, earlier]
    simp [BEq.congr_right hsame, hsame]
  have hle := (List.take_sublist (i + 1) gs).countP_le
    (p := fun g => g.scope == gs[i].scope && g.signature == signature)
  omega

/-- A signature has as many identifiers as it has records in the scope where it has most. -/
theorem card_idsWhere_signature (h : AreParallel baseId gs) (signature : σ) :
    (idsWhere gs fun g => g.signature == signature).card =
      (gs.map (·.scope)).toFinset.sup fun scope =>
        gs.countP fun g => g.scope == scope && g.signature == signature := by
  classical
  have hids : (idsWhere gs fun g => g.signature == signature) =
      ((Finset.range gs.length).filter (IsGivenFor baseId gs signature)).image
        (candidate baseId) := by
    ext id
    rw [mem_idsWhere, Finset.mem_image]
    constructor
    · rintro ⟨g, hg, hsignature, rfl⟩
      obtain ⟨i, hi, rfl⟩ := List.getElem_of_mem hg
      obtain ⟨n, hn, hid, -⟩ := h.exists_number hi
      exact ⟨n, Finset.mem_filter.mpr ⟨Finset.mem_range.mpr (by omega), _, hg, hid, hsignature⟩,
        hid.symm⟩
    · rintro ⟨n, hn, rfl⟩
      obtain ⟨-, g, hg, hid, hsignature⟩ := Finset.mem_filter.mp hn
      exact ⟨g, hg, hsignature, hid⟩
  apply Nat.le_antisymm
  · -- the candidates of the signature are told apart by how many of them are below
    rw [hids, Finset.card_image_of_injective _ (candidate_injective baseId),
      ← Finset.card_range (Finset.sup _ _)]
    refine Finset.card_le_card_of_injOn (Nat.count (IsGivenFor baseId gs signature)) ?_ ?_
    · intro n hn
      obtain ⟨-, g, hg, hid, hsignature⟩ := Finset.mem_filter.mp hn
      obtain ⟨i, hi, rfl⟩ := List.getElem_of_mem hg
      have hturn := h.count_isGivenFor hi hid
      rw [count_congr_of_lt fun k _ => isGivenFor_congr hsignature k] at hturn
      have hlt := earlier_lt hi hsignature
      have hscope : gs[i].scope ∈ (gs.map (·.scope)).toFinset :=
        List.mem_toFinset.mpr (List.mem_map_of_mem hg)
      have hle := Finset.le_sup hscope
        (f := fun scope => gs.countP fun g => g.scope == scope && g.signature == signature)
      rw [Finset.coe_range, Set.mem_Iio, hturn]
      exact hlt.trans_le hle
    · intro n hn m hm heq
      exact Nat.count_injective (Finset.mem_filter.mp hn).2 (Finset.mem_filter.mp hm).2 heq
  · rw [Finset.sup_le_iff]
    intro scope _
    have hone := h.card_idsWhere (List.Sublist.refl gs)
      (p := fun g => g.scope == scope && g.signature == signature)
      fun g _ hg => beq_iff_eq.mp (Bool.and_eq_true_iff.mp hg).1
    rw [← hone]
    apply Finset.card_le_card
    intro id
    simp only [mem_idsWhere, Bool.and_eq_true]
    rintro ⟨g, hg, ⟨-, hsignature⟩, hid⟩
    exact ⟨g, hg, hsignature, hid⟩

/-- Different signatures have no identifier in common. -/
theorem card_idsWhere_any (h : AreParallel baseId gs) {signatures : List σ}
    (hdiffer : signatures.Pairwise fun s s' => (s == s') = false) :
    (idsWhere gs fun g => signatures.any (g.signature == ·)).card =
      (signatures.map fun s => (idsWhere gs fun g => g.signature == s).card).sum := by
  induction signatures with
  | nil => simp [idsWhere]
  | cons s rest ih =>
    obtain ⟨hs, hrest⟩ := List.pairwise_cons.mp hdiffer
    have hunion : (idsWhere gs fun g => (s :: rest).any (g.signature == ·)) =
        (idsWhere gs fun g => g.signature == s) ∪
          idsWhere gs fun g => rest.any (g.signature == ·) := by
      ext id
      simp only [Finset.mem_union, mem_idsWhere, List.any_cons, Bool.or_eq_true, or_and_right,
        and_or_left, exists_or]
    have hdisjoint : Disjoint (idsWhere gs fun g => g.signature == s)
        (idsWhere gs fun g => rest.any (g.signature == ·)) := by
      rw [Finset.disjoint_left]
      intro id hid hid'
      obtain ⟨g, hg, hsame, rfl⟩ := mem_idsWhere.mp hid
      obtain ⟨g', hg', hany, heq⟩ := mem_idsWhere.mp hid'
      obtain ⟨s', hs', hsame'⟩ := List.any_eq_true.mp hany
      have hboth : (g.signature == s') = true := by rwa [h.signature_eq hg hg' heq.symm]
      exact Bool.false_ne_true ((hs s' hs').symm.trans (BEq.trans (BEq.symm hsame) hboth))
    rw [hunion, Finset.card_union_of_disjoint hdisjoint, ih hrest, List.map_cons, List.sum_cons]

end AreParallel

variable [PartialEquivBEq σ]

/-- **Parallel records line up**: of records that claim one base identifier, in any order of
scopes and signatures, two share an identifier exactly if their signatures are equal and
each has as many records of its signature before it in its own scope as the other has in
the other's. So there are as many identifiers as all signatures together have records in
the scopes where each has most. -/
theorem id_eq_iff_same_turn (baseId : String) (records : List (Option String × σ)) :
    let gs : List (Grant σ) := grantsOf baseId records
    gs.map (·.toClaimant) = (records.map fun r => ⟨baseId, r.1, r.2⟩) ∧
      (∀ i j (hi : i < gs.length) (hj : j < gs.length), i ≠ j →
        (gs[i].id = gs[j].id ↔ (gs[i].signature == gs[j].signature) = true ∧
          earlier (gs.take i) gs[i] = earlier (gs.take j) gs[j])) ∧
      ∀ signatures : List σ, signatures.Pairwise (fun s s' => (s == s') = false) →
        (∀ r ∈ records, ∃ s ∈ signatures, (r.2 == s) = true) →
        (gs.map (·.id)).toFinset.card =
          (signatures.map fun s => (records.map (·.1)).toFinset.sup fun scope =>
            records.countP fun r => r.1 == scope && r.2 == s).sum := by
  intro gs
  have h : AreParallel baseId gs := areParallel_grantsOf baseId records
  have hclaimants : gs.map (·.toClaimant) = records.map fun r => ⟨baseId, r.1, r.2⟩ :=
    map_toClaimant_grants _ _
  refine ⟨hclaimants, fun i j hi hj hij => h.id_eq_iff hi hj hij, ?_⟩
  intro signatures hdiffer hall
  have hscopes : gs.map (·.scope) = records.map (·.1) := by
    have := congrArg (List.map Claimant.scope) hclaimants
    simpa only [List.map_map, Function.comp_def] using this
  have hcount : ∀ (scope : Option String) (s : σ),
      (gs.countP fun g => g.scope == scope && g.signature == s) =
        records.countP fun r => r.1 == scope && r.2 == s := by
    intro scope s
    have := congrArg (List.countP fun c => c.scope == scope && c.signature == s) hclaimants
    simpa only [List.countP_map, Function.comp_def] using this
  have hids : (gs.map (·.id)).toFinset =
      idsWhere gs fun g => signatures.any (g.signature == ·) := by
    have hcovered : ∀ g ∈ gs, signatures.any (g.signature == ·) = true := by
      intro g hg
      have hclaimant := hclaimants ▸ List.mem_map_of_mem (f := Grant.toClaimant) hg
      obtain ⟨r, hr, heq⟩ := List.mem_map.mp hclaimant
      obtain ⟨s, hs, hsame⟩ := hall r hr
      exact List.any_eq_true.mpr ⟨s, hs, by rwa [← heq]⟩
    rw [idsWhere, List.filter_eq_self.mpr hcovered]
  calc (gs.map (·.id)).toFinset.card
      = (signatures.map fun s =>
          (idsWhere gs fun g => g.signature == s).card).sum := by
        rw [hids, h.card_idsWhere_any hdiffer]
    _ = _ := by
        simp only [h.card_idsWhere_signature, hscopes, hcount]

/-- Two parallel arcs, which a morph repeats with a third one of another weight in between:
three identifiers, two of them of both scopes. -/
theorem id_eq_iff_same_turn_repeated :
    let arc (weight : ℤ) : Signature := .relation "has prior_state" (.int weight)
    let records := [(none, arc 1), (some "m", arc 1), (some "m", arc 2), (none, arc 1),
      (some "m", arc 1)]
    let gs := grantsOf "rel_b" records
    gs.map (·.id) = ["rel_b", "rel_b", "rel_b_2", "rel_b_3", "rel_b_3"] ∧
      (∀ i j (hi : i < gs.length) (hj : j < gs.length), i ≠ j →
        (gs[i].id = gs[j].id ↔ (gs[i].signature == gs[j].signature) = true ∧
          earlier (gs.take i) gs[i] = earlier (gs.take j) gs[j])) ∧
      ([arc 1, arc 2].Pairwise fun s s' => (s == s') = false) ∧
      (∀ r ∈ records, ∃ s ∈ [arc 1, arc 2], (r.2 == s) = true) ∧
      (gs.map (·.id)).toFinset.card =
        ([arc 1, arc 2].map fun s => (records.map (·.1)).toFinset.sup fun scope =>
          records.countP fun r => r.1 == scope && r.2 == s).sum := by
  intro arc records gs
  have hdiffer : [arc 1, arc 2].Pairwise fun s s' => (s == s') = false := by decide +kernel
  have hall : ∀ r ∈ records, ∃ s ∈ [arc 1, arc 2], (r.2 == s) = true := by decide +kernel
  obtain ⟨-, hturns, hcard⟩ := id_eq_iff_same_turn "rel_b" records
  exact ⟨by decide +kernel, hturns, hdiffer, hall, hcard _ hdiffer hall⟩

end NoteGraph.Session
