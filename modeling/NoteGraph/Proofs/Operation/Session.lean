import Mathlib.Data.List.Perm.Subperm
import Mathlib.Data.List.Nodup
import Mathlib.Logic.Function.Basic
import NoteGraph.Operation.Session

/-!
# Identifiers are given once

A session always finds a free candidate, and the first one. It gives an identifier in a
scope at most once, and only to records of one signature.
-/

namespace NoteGraph

/-! ### Candidates -/

namespace Session

theorem toString_injective {m n : ℕ} (h : toString m = toString n) : m = n := by
  rw [Nat.toString_eq_ofList_toDigits, Nat.toString_eq_ofList_toDigits] at h
  have hdigits : Nat.toDigits 10 m = Nat.toDigits 10 n := by
    have := congrArg String.toList h
    rwa [String.toList_ofList, String.toList_ofList] at this
  rw [← Nat.ofDigitChars_ten_toDigits (n := m), hdigits, Nat.ofDigitChars_ten_toDigits]

theorem toList_candidate (baseId : String) (n : ℕ) : (candidate baseId n).toList =
    baseId.toList ++ if n = 0 then [] else '_' :: (toString (n + 1)).toList := by
  unfold candidate
  split_ifs with h
  · rw [List.append_nil]
  · rw [String.toList_append, String.toList_append, List.append_assoc]
    rfl

theorem candidate_injective (baseId : String) : Function.Injective (candidate baseId) := by
  intro m n h
  have hlist := congrArg String.toList h
  rw [toList_candidate, toList_candidate] at hlist
  have htail := List.append_cancel_left hlist
  by_cases hm : m = 0
  · by_cases hn : n = 0
    · rw [hm, hn]
    · rw [if_pos hm, if_neg hn] at htail
      cases htail
  · by_cases hn : n = 0
    · rw [if_neg hm, if_pos hn] at htail
      cases htail
    · rw [if_neg hm, if_neg hn] at htail
      have hnum := toString_injective (String.toList_inj.mp (List.cons.inj htail).2)
      omega

variable {σ : Type}

/-- More candidates than claims: one of them is unclaimed. -/
theorem exists_unclaimed (s : Session σ) (baseId : String) :
    ∃ n ≤ s.claims.length, candidate baseId n ∉ s.claims.map (·.id) := by
  by_contra hall
  push Not at hall
  have hsub : (List.range (s.claims.length + 1)).map (candidate baseId) ⊆
      s.claims.map (·.id) := by
    intro id hid
    obtain ⟨n, hn, rfl⟩ := List.mem_map.mp hid
    exact hall n (Nat.lt_succ_iff.mp (List.mem_range.mp hn))
  have hnodup : ((List.range (s.claims.length + 1)).map (candidate baseId)).Nodup :=
    List.nodup_range.map (candidate_injective baseId)
  have hlength := (hnodup.subperm hsub).length_le
  simp only [List.length_map, List.length_range] at hlength
  omega

section Claim

variable [BEq σ] {s : Session σ} {baseId id : String} {scope : Option String} {signature : σ}

theorem isFree_of_notMem (h : id ∉ s.claims.map (·.id)) :
    s.isFree scope signature id = true := by
  have hnone : s.claimOf? id = none := by
    rw [claimOf?, List.find?_eq_none]
    intro claim hclaim heq
    exact h (List.mem_map.mpr ⟨claim, hclaim, beq_iff_eq.mp heq⟩)
  rw [isFree, hnone]

theorem firstFree_spec (s : Session σ) (baseId : String) (scope : Option String) (signature : σ)
    (fuel : ℕ) :
    ∀ {n i : ℕ}, i ≤ fuel → s.isFree scope signature (candidate baseId (n + i)) = true →
      ∃ j ≤ i, s.firstFree baseId scope signature fuel n = candidate baseId (n + j) ∧
        s.isFree scope signature (candidate baseId (n + j)) = true ∧
        ∀ k < j, s.isFree scope signature (candidate baseId (n + k)) = false := by
  induction fuel with
  | zero =>
    intro n i hi hfree
    obtain rfl := Nat.le_zero.mp hi
    exact ⟨0, Nat.le_refl 0, rfl, hfree, fun k hk => absurd hk (Nat.not_lt_zero k)⟩
  | succ fuel ih =>
    intro n i hi hfree
    rw [firstFree]
    cases hn : s.isFree scope signature (candidate baseId n) with
    | true =>
      rw [if_pos rfl]
      exact ⟨0, Nat.zero_le i, rfl, hn, fun k hk => absurd hk (Nat.not_lt_zero k)⟩
    | false =>
      rw [if_neg Bool.false_ne_true]
      obtain ⟨i, rfl⟩ : ∃ i', i = i' + 1 := by
        cases i with
        | zero => exact absurd hfree (by rw [Nat.add_zero, hn]; exact Bool.false_ne_true)
        | succ i => exact ⟨i, rfl⟩
      have hnext : n + (i + 1) = n + 1 + i := by omega
      rw [hnext] at hfree
      obtain ⟨j, hj, heq, hjfree, hbefore⟩ := ih (Nat.le_of_succ_le_succ hi) hfree
      refine ⟨j + 1, Nat.succ_le_succ hj, ?_, ?_, ?_⟩
      · rw [heq]
        congr 1
        omega
      · rwa [show n + (j + 1) = n + 1 + j by omega]
      · intro k hk
        cases k with
        | zero => exact hn
        | succ k =>
          rw [show n + (k + 1) = n + 1 + k by omega]
          exact hbefore k (by omega)

/-- A record is given the first free candidate. -/
theorem claim_spec (s : Session σ) (baseId : String) (scope : Option String) (signature : σ) :
    ∃ n, (s.claim baseId scope signature).1 = candidate baseId n ∧
      s.isFree scope signature (candidate baseId n) = true ∧
      ∀ k < n, s.isFree scope signature (candidate baseId k) = false := by
  obtain ⟨i, hi, hunclaimed⟩ := s.exists_unclaimed baseId
  have hfree : s.isFree scope signature (candidate baseId (0 + i)) = true := by
    rw [Nat.zero_add]
    exact isFree_of_notMem hunclaimed
  obtain ⟨n, -, heq, hnfree, hbefore⟩ := s.firstFree_spec baseId scope signature _ hi hfree
  simp only [Nat.zero_add] at heq hnfree hbefore
  exact ⟨n, heq, hnfree, hbefore⟩

theorem isFree_claim (s : Session σ) (baseId : String) (scope : Option String) (signature : σ) :
    s.isFree scope signature (s.claim baseId scope signature).1 = true := by
  obtain ⟨n, heq, hfree, -⟩ := s.claim_spec baseId scope signature
  rwa [heq]

end Claim

/-! ### Giving -/

theorem map_id_give (claims : List (Claim σ)) (id : String) (scope : Option String)
    (signature : σ) : (give claims id scope signature).map (·.id) =
      if id ∈ claims.map (·.id) then claims.map (·.id) else claims.map (·.id) ++ [id] := by
  have hany : claims.any (·.id == id) = true ↔ id ∈ claims.map (·.id) := by
    simp [List.any_eq_true]
  unfold give
  by_cases h : id ∈ claims.map (·.id)
  · rw [if_pos (hany.mpr h), if_pos h, List.map_map]
    refine List.map_congr_left fun claim _ => ?_
    simp only [Function.comp_apply]
    split_ifs <;> rfl
  · rw [if_neg (mt hany.mp h), if_neg h, List.map_append]
    rfl

/-- An identifier that was given in a scope to a record of a signature. -/
def Holds (s : Session σ) (id : String) (scope : Option String) (signature : σ) : Prop :=
  ∃ claim ∈ s.claims, claim.id = id ∧ scope ∈ claim.scopes ∧ claim.signature = signature

/-- A session whose claims have different identifiers, and signatures of one kind. -/
structure IsSound (P : σ → Prop) (s : Session σ) : Prop where
  distinct : (s.claims.map (·.id)).Nodup
  signatures : ∀ claim ∈ s.claims, P claim.signature

theorem isSound_empty (P : σ → Prop) : (empty : Session σ).IsSound P :=
  ⟨List.nodup_nil, fun _ h => nomatch h⟩

theorem claimOf?_of_mem {s : Session σ} (h : (s.claims.map (·.id)).Nodup) {claim : Claim σ}
    (hclaim : claim ∈ s.claims) : s.claimOf? claim.id = some claim := by
  cases hfound : s.claimOf? claim.id with
  | none =>
    have hnone := List.find?_eq_none.mp hfound claim hclaim
    exact absurd (beq_self_eq_true claim.id) hnone
  | some found =>
    have hid : found.id = claim.id := by simpa using List.find?_some hfound
    rw [List.inj_on_of_nodup_map h (List.mem_of_find?_eq_some hfound) hclaim hid]

theorem mem_claims_of_claimOf? {s : Session σ} {id : String} {claim : Claim σ}
    (h : s.claimOf? id = some claim) : claim ∈ s.claims ∧ claim.id = id :=
  ⟨List.mem_of_find?_eq_some h, by simpa using List.find?_some h⟩

theorem notMem_of_claimOf?_eq_none {s : Session σ} {id : String} (h : s.claimOf? id = none) :
    id ∉ s.claims.map (·.id) := by
  intro hmem
  obtain ⟨claim, hclaim, rfl⟩ := List.mem_map.mp hmem
  exact absurd (beq_self_eq_true claim.id) (List.find?_eq_none.mp h claim hclaim)

section Given

variable [BEq σ] {P : σ → Prop} {s : Session σ} {id : String} {scope scope' : Option String}
  {signature signature' : σ}

/-- A free identifier was not given in the scope, and only to records of the signature. -/
theorem IsSound.of_isFree (lawful : ∀ a b, P a → P b → (a == b) = true → a = b)
    (h : s.IsSound P) (hsig : P signature) (hfree : s.isFree scope signature id = true)
    (hholds : s.Holds id scope' signature') : scope' ≠ scope ∧ signature' = signature := by
  obtain ⟨claim, hclaim, rfl, hscope, rfl⟩ := hholds
  rw [isFree, claimOf?_of_mem h.distinct hclaim, Bool.and_eq_true, Bool.not_eq_true',
    List.contains_eq_mem, decide_eq_false_iff_not] at hfree
  refine ⟨?_, lawful _ _ (h.signatures claim hclaim) hsig hfree.2⟩
  rintro rfl
  exact hfree.1 hscope

variable (s) (baseId : String)

/-- A claim keeps the session sound. -/
theorem IsSound.claim (h : s.IsSound P) (hsig : P signature) :
    (s.claim baseId scope signature).2.IsSound P := by
  constructor
  · change ((give s.claims _ scope signature).map (·.id)).Nodup
    rw [map_id_give]
    split_ifs with hmem
    · exact h.distinct
    · exact List.nodup_append.mpr ⟨h.distinct, List.nodup_singleton _,
        fun a ha b hb => by rintro rfl; exact hmem (List.mem_singleton.mp hb ▸ ha)⟩
  · change ∀ claim ∈ give s.claims _ scope signature, P claim.signature
    intro claim hclaim
    unfold give at hclaim
    split_ifs at hclaim with hany
    · obtain ⟨old, hold, rfl⟩ := List.mem_map.mp hclaim
      split_ifs
      · exact h.signatures old hold
      · exact h.signatures old hold
    · rcases List.mem_append.mp hclaim with hold | hnew
      · exact h.signatures claim hold
      · rw [List.mem_singleton.mp hnew]
        exact hsig

theorem Holds.claim (h : s.Holds id scope' signature') :
    (s.claim baseId scope signature).2.Holds id scope' signature' := by
  obtain ⟨claim, hclaim, hid, hscope, hsig⟩ := h
  change ∃ claim ∈ give s.claims _ scope signature, _
  unfold give
  split_ifs with hany
  · refine ⟨_, List.mem_map_of_mem hclaim, ?_⟩
    split_ifs
    · exact ⟨hid, List.mem_append_left _ hscope, hsig⟩
    · exact ⟨hid, hscope, hsig⟩
  · exact ⟨claim, List.mem_append_left _ hclaim, hid, hscope, hsig⟩

/-- What a claim gives is held. -/
theorem holds_claim (lawful : ∀ a b, P a → P b → (a == b) = true → a = b) (h : s.IsSound P)
    (hsig : P signature) : (s.claim baseId scope signature).2.Holds
      (s.claim baseId scope signature).1 scope signature := by
  have hfree := s.isFree_claim baseId scope signature
  change ∃ claim ∈ give s.claims (s.claim baseId scope signature).1 scope signature, _
  generalize (s.claim baseId scope signature).1 = given at hfree ⊢
  unfold give
  cases hold : s.claimOf? given with
  | none =>
    have hmem := notMem_of_claimOf?_eq_none hold
    rw [if_neg (by simpa [List.any_eq_true] using hmem)]
    exact ⟨_, List.mem_append_right _ (List.mem_singleton_self _), rfl,
      List.mem_singleton_self scope, rfl⟩
  | some claim =>
    obtain ⟨hclaim, rfl⟩ := mem_claims_of_claimOf? hold
    rw [isFree, hold, Bool.and_eq_true] at hfree
    rw [if_pos (List.any_eq_true.mpr ⟨claim, hclaim, beq_self_eq_true claim.id⟩)]
    refine ⟨_, List.mem_map_of_mem hclaim, ?_⟩
    rw [if_pos (beq_self_eq_true claim.id)]
    exact ⟨rfl, List.mem_append_right _ (List.mem_singleton_self scope),
      lawful _ _ (h.signatures claim hclaim) hsig hfree.2⟩

end Given

end Session

end NoteGraph
