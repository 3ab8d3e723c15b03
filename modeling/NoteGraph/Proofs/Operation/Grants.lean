import NoteGraph.Operation.OfText
import NoteGraph.Proofs.Number.SameValue
import NoteGraph.Proofs.Operation.Session

/-!
# Runs of claims

Records claim identifiers from one session, one after another. What a claim is given does
not depend on the table of the session but on who was given what before: it is the first of
the candidates of its base identifier that is open to it, one that was given to nobody, or
only in other scopes and for equal signatures. The candidates of different base identifiers
may meet; so this is said of all grants of a run at once, whatever they are candidates of.

Signatures need only be compared by a symmetric and transitive relation. A signature that is
not equal to itself, such as one with an undefined weight, shares its identifier with none.
-/

namespace NoteGraph

/-- A record that claims an identifier. -/
structure Claimant (σ : Type) where
  baseId : String
  scope : Option String
  signature : σ

/-- A record with the identifier that it was given. -/
structure Grant (σ : Type) extends Claimant σ where
  id : String

namespace Session

variable {σ : Type} [BEq σ]

/-- What some records are given that make their claims one after another. -/
def grants (s : Session σ) : List (Claimant σ) → List (Grant σ)
  | [] => []
  | c :: rest =>
    ⟨c, (s.claim c.baseId c.scope c.signature).1⟩ ::
      (s.claim c.baseId c.scope c.signature).2.grants rest

/-- An identifier is open to a record after some grants: whoever was given it was in another
scope and of an equal signature. -/
def IsOpen (before : List (Grant σ)) (c : Claimant σ) (id : String) : Prop :=
  ∀ g ∈ before, g.id = id → g.scope ≠ c.scope ∧ (g.signature == c.signature) = true

/-- A record is given the first candidate that is open to it, which is found after at most
one test more than there were grants before. -/
def IsFirstOpen (before : List (Grant σ)) (g : Grant σ) : Prop :=
  ∃ n ≤ before.length, g.id = candidate g.baseId n ∧ IsOpen before g.toClaimant g.id ∧
    ∀ k < n, ¬IsOpen before g.toClaimant (candidate g.baseId k)

/-! ### The table of a session -/

/-- The table of a session shows who was given what. -/
structure Records (s : Session σ) (before : List (Grant σ)) : Prop where
  sound : s.IsSound fun _ => True
  length_le : s.claims.length ≤ before.length
  /-- Every grant is entered with its scope, and the signature of the entry is its own or
  equal to it. -/
  entered : ∀ g ∈ before, ∃ claim ∈ s.claims, claim.id = g.id ∧ g.scope ∈ claim.scopes ∧
    (claim.signature = g.signature ∨ (claim.signature == g.signature) = true)
  signed : ∀ claim ∈ s.claims, ∃ g ∈ before, g.id = claim.id ∧ g.signature = claim.signature
  placed : ∀ claim ∈ s.claims, ∀ scope ∈ claim.scopes,
    ∃ g ∈ before, g.id = claim.id ∧ g.scope = scope

section Give

variable {claims : List (Claim σ)} {id : String}

omit [BEq σ]

theorem give_of_notMem (h : id ∉ claims.map (·.id)) (scope : Option String) (signature : σ) :
    give claims id scope signature = claims ++ [⟨id, [scope], signature⟩] := by
  unfold give
  rw [if_neg (by simpa [List.any_eq_true] using h)]

/-- The entry of an identifier with one more scope, all other entries as they are. -/
def withScope (id : String) (scope : Option String) (claim : Claim σ) : Claim σ :=
  if claim.id == id then { claim with scopes := claim.scopes ++ [scope] } else claim

theorem give_of_mem (h : id ∈ claims.map (·.id)) (scope : Option String) (signature : σ) :
    give claims id scope signature = claims.map (withScope id scope) := by
  unfold give
  rw [if_pos (by simpa [List.any_eq_true] using h)]
  rfl

@[simp] theorem id_withScope (scope : Option String) (claim : Claim σ) :
    (withScope id scope claim).id = claim.id := by
  unfold withScope
  split_ifs <;> rfl

@[simp] theorem signature_withScope (scope : Option String) (claim : Claim σ) :
    (withScope id scope claim).signature = claim.signature := by
  unfold withScope
  split_ifs <;> rfl

theorem mem_scopes_withScope {scope scope' : Option String} {claim : Claim σ} :
    scope' ∈ (withScope id scope claim).scopes ↔
      scope' ∈ claim.scopes ∨ claim.id = id ∧ scope' = scope := by
  unfold withScope
  by_cases h : claim.id = id
  · simp [h]
  · simp [h]

end Give

namespace Records

theorem empty : (Session.empty : Session σ).Records [] := by
  constructor
  · exact isSound_empty _
  · exact Nat.le_refl 0
  all_goals exact fun _ h => absurd h List.not_mem_nil

variable {s : Session σ} {before : List (Grant σ)}

theorem eq_of_id_eq (h : s.Records before) {claim claim' : Claim σ} (hc : claim ∈ s.claims)
    (hc' : claim' ∈ s.claims) (hid : claim.id = claim'.id) : claim = claim' :=
  List.inj_on_of_nodup_map h.sound.distinct hc hc' hid

/-- The test of the table is the one that looks at the grants. -/
theorem isFree_iff [PartialEquivBEq σ] (h : s.Records before) (c : Claimant σ) (id : String) :
    s.isFree c.scope c.signature id = true ↔ IsOpen before c id := by
  unfold isFree
  cases hclaim : s.claimOf? id with
  | none =>
    have hnew := notMem_of_claimOf?_eq_none hclaim
    refine ⟨fun _ g hg hid => ?_, fun _ => rfl⟩
    obtain ⟨claim, hmem, heq, -, -⟩ := h.entered g hg
    exact absurd (List.mem_map.mpr ⟨claim, hmem, heq.trans hid⟩) hnew
  | some claim =>
    obtain ⟨hmem, rfl⟩ := mem_claims_of_claimOf? hclaim
    simp only [Bool.and_eq_true, Bool.not_eq_true', List.contains_eq_mem,
      decide_eq_false_iff_not]
    constructor
    · rintro ⟨hscope, hsignature⟩ g hg hid
      obtain ⟨claim', hmem', heq, hin, hsame⟩ := h.entered g hg
      obtain rfl := h.eq_of_id_eq hmem' hmem (heq.trans hid)
      refine ⟨fun hsc => hscope (hsc ▸ hin), ?_⟩
      rcases hsame with hsame | hsame
      · exact hsame ▸ hsignature
      · exact BEq.trans (BEq.symm hsame) hsignature
    · intro hopen
      constructor
      · intro hscope
        obtain ⟨g, hg, hid, hsc⟩ := h.placed claim hmem c.scope hscope
        exact (hopen g hg hid).1 hsc
      · obtain ⟨g, hg, hid, hsignature⟩ := h.signed claim hmem
        exact hsignature ▸ (hopen g hg hid).2

/-- An identifier that was given to nobody makes a new entry. -/
theorem give_new (h : s.Records before) (c : Claimant σ) {id : String} {s' : Session σ}
    (hsound : s'.IsSound fun _ => True)
    (hclaims : s'.claims = s.claims ++ [⟨id, [c.scope], c.signature⟩]) :
    s'.Records (before ++ [⟨c, id⟩]) := by
  have hlast : (⟨c, id⟩ : Grant σ) ∈ before ++ [⟨c, id⟩] :=
    List.mem_append_right _ (List.mem_singleton_self _)
  refine ⟨hsound, ?_, ?_, ?_, ?_⟩
  · rw [hclaims]
    simpa using h.length_le
  · intro g hg
    rw [hclaims]
    rcases List.mem_append.mp hg with hg | hg
    · obtain ⟨claim, hmem, hrest⟩ := h.entered g hg
      exact ⟨claim, List.mem_append_left _ hmem, hrest⟩
    · obtain rfl := List.mem_singleton.mp hg
      exact ⟨_, List.mem_append_right _ (List.mem_singleton_self _), rfl,
        List.mem_singleton_self _, Or.inl rfl⟩
  · intro claim hmem
    rw [hclaims] at hmem
    rcases List.mem_append.mp hmem with hmem | hmem
    · obtain ⟨g, hg, hrest⟩ := h.signed claim hmem
      exact ⟨g, List.mem_append_left _ hg, hrest⟩
    · obtain rfl := List.mem_singleton.mp hmem
      exact ⟨_, hlast, rfl, rfl⟩
  · intro claim hmem scope hscope
    rw [hclaims] at hmem
    rcases List.mem_append.mp hmem with hmem | hmem
    · obtain ⟨g, hg, hrest⟩ := h.placed claim hmem scope hscope
      exact ⟨g, List.mem_append_left _ hg, hrest⟩
    · obtain rfl := List.mem_singleton.mp hmem
      exact ⟨_, hlast, rfl, (List.mem_singleton.mp hscope).symm⟩

/-- An identifier that was given before is given in one more scope. -/
theorem give_again (h : s.Records before) (c : Claimant σ) {claim : Claim σ}
    (hclaim : claim ∈ s.claims) (hsame : (claim.signature == c.signature) = true)
    {s' : Session σ} (hsound : s'.IsSound fun _ => True)
    (hclaims : s'.claims = s.claims.map (withScope claim.id c.scope)) :
    s'.Records (before ++ [⟨c, claim.id⟩]) := by
  refine ⟨hsound, ?_, ?_, ?_, ?_⟩
  · rw [hclaims, List.length_map, List.length_append]
    exact Nat.le_add_right_of_le h.length_le
  · intro g hg
    rw [hclaims]
    rcases List.mem_append.mp hg with hg | hg
    · obtain ⟨old, hmem, hid, hscope, hsignature⟩ := h.entered g hg
      refine ⟨_, List.mem_map_of_mem hmem, ?_, ?_, ?_⟩
      · simpa using hid
      · exact mem_scopes_withScope.mpr (Or.inl hscope)
      · simpa using hsignature
    · obtain rfl := List.mem_singleton.mp hg
      refine ⟨_, List.mem_map_of_mem hclaim, ?_, ?_, ?_⟩
      · simp
      · exact mem_scopes_withScope.mpr (Or.inr ⟨rfl, rfl⟩)
      · simpa using Or.inr hsame
  · intro entry hmem
    rw [hclaims] at hmem
    obtain ⟨old, hold, rfl⟩ := List.mem_map.mp hmem
    obtain ⟨g, hg, hid, hsignature⟩ := h.signed old hold
    exact ⟨g, List.mem_append_left _ hg, by simpa using hid, by simpa using hsignature⟩
  · intro entry hmem scope hscope
    rw [hclaims] at hmem
    obtain ⟨old, hold, rfl⟩ := List.mem_map.mp hmem
    rcases mem_scopes_withScope.mp hscope with hscope | ⟨hid, rfl⟩
    · obtain ⟨g, hg, hid, hsc⟩ := h.placed old hold scope hscope
      exact ⟨g, List.mem_append_left _ hg, by simpa using hid, hsc⟩
    · exact ⟨_, List.mem_append_right _ (List.mem_singleton_self _), by simpa using hid.symm, rfl⟩

/-- A claim enters what it gives. -/
theorem claim (h : s.Records before) (c : Claimant σ) :
    (s.claim c.baseId c.scope c.signature).2.Records
      (before ++ [⟨c, (s.claim c.baseId c.scope c.signature).1⟩]) := by
  have hsound : (s.claim c.baseId c.scope c.signature).2.IsSound fun _ => True :=
    h.sound.claim s c.baseId trivial
  have hfree := s.isFree_claim c.baseId c.scope c.signature
  have hclaims : (s.claim c.baseId c.scope c.signature).2.claims =
      give s.claims (s.claim c.baseId c.scope c.signature).1 c.scope c.signature := rfl
  generalize (s.claim c.baseId c.scope c.signature).2 = s' at hsound hclaims ⊢
  generalize (s.claim c.baseId c.scope c.signature).1 = id at hfree hclaims ⊢
  cases hold : s.claimOf? id with
  | none =>
    have hnew := notMem_of_claimOf?_eq_none hold
    rw [give_of_notMem hnew] at hclaims
    exact h.give_new c hsound hclaims
  | some claim =>
    obtain ⟨hmem, rfl⟩ := mem_claims_of_claimOf? hold
    rw [give_of_mem (List.mem_map_of_mem hmem)] at hclaims
    rw [isFree, hold, Bool.and_eq_true] at hfree
    exact h.give_again c hmem hfree.2 hsound hclaims

end Records

/-! ### Runs -/

variable [PartialEquivBEq σ]

theorem Records.isFirstOpen {s : Session σ} {before : List (Grant σ)} (h : s.Records before)
    (c : Claimant σ) : IsFirstOpen before ⟨c, (s.claim c.baseId c.scope c.signature).1⟩ := by
  obtain ⟨n, heq, hfree, hbefore⟩ := s.claim_spec c.baseId c.scope c.signature
  obtain ⟨i, hi, hunclaimed⟩ := s.exists_unclaimed c.baseId
  -- the first free candidate is not behind one that nobody claimed
  have hni : n ≤ i := by
    by_contra hlt
    have hnot := hbefore i (by omega)
    rw [isFree_of_notMem hunclaimed] at hnot
    exact Bool.false_ne_true hnot.symm
  have hle := h.length_le
  refine ⟨n, by omega, heq, ?_, fun k hk hopen => ?_⟩
  · exact (h.isFree_iff c _).mp (heq ▸ hfree)
  · have hnot := hbefore k hk
    rw [(h.isFree_iff c _).mpr hopen] at hnot
    exact Bool.false_ne_true hnot.symm

theorem Records.forall_isFirstOpen (cs : List (Claimant σ)) :
    ∀ {s : Session σ} {before : List (Grant σ)}, s.Records before →
      ∀ i (hi : i < (s.grants cs).length),
        IsFirstOpen (before ++ (s.grants cs).take i) (s.grants cs)[i] := by
  induction cs with
  | nil =>
    intro s before h i hi
    exact absurd hi (Nat.not_lt_zero i)
  | cons c rest ih =>
    intro s before h i hi
    cases i with
    | zero => simpa [grants] using h.isFirstOpen c
    | succ i =>
      have hrest := ih (h.claim c) i (by simpa [grants] using hi)
      simpa [grants] using hrest

omit [PartialEquivBEq σ] in
theorem map_toClaimant_grants (cs : List (Claimant σ)) :
    ∀ s : Session σ, (s.grants cs).map (·.toClaimant) = cs := by
  induction cs with
  | nil => exact fun _ => rfl
  | cons c rest ih =>
    intro s
    rw [grants, List.map_cons, ih]

omit [PartialEquivBEq σ] in
/-- Grants of one identifier are made in different scopes and for equal signatures. -/
theorem pairwise_of_isFirstOpen {gs : List (Grant σ)}
    (h : ∀ i (hi : i < gs.length), IsFirstOpen (gs.take i) gs[i]) :
    gs.Pairwise fun g g' =>
      g.id = g'.id → g.scope ≠ g'.scope ∧ (g.signature == g'.signature) = true := by
  rw [List.pairwise_iff_getElem]
  intro i j hi hj hij hid
  obtain ⟨-, -, -, hopen, -⟩ := h j hj
  have hmem : gs[i] ∈ gs.take j := List.mem_take_iff_getElem.mpr ⟨i, by omega, rfl⟩
  exact hopen _ hmem hid

/-- **Claims give the first open candidate**: of whatever base identifiers, scopes and
signatures the claims of a run are, each search ends, and ends at the first candidate that
nobody was given before or only records of equal signatures in other scopes. So no
identifier is given twice in a scope, and records that share one have equal signatures,
also where candidates of different base identifiers meet. -/
theorem isFirstOpen_grants (cs : List (Claimant σ)) :
    let gs := (empty : Session σ).grants cs
    gs.map (·.toClaimant) = cs ∧
      (∀ i (hi : i < gs.length), IsFirstOpen (gs.take i) gs[i]) ∧
      (gs.map fun g => (g.id, g.scope)).Nodup ∧
      gs.Pairwise fun g g' => g.id = g'.id → (g.signature == g'.signature) = true := by
  intro gs
  have hfirst : ∀ i (hi : i < gs.length), IsFirstOpen (gs.take i) gs[i] :=
    Records.empty.forall_isFirstOpen cs
  have hpairs := pairwise_of_isFirstOpen hfirst
  refine ⟨map_toClaimant_grants cs empty, hfirst, ?_, ?_⟩
  · rw [List.Nodup, List.pairwise_map]
    refine hpairs.imp fun h heq => ?_
    obtain ⟨hid, hscope⟩ := Prod.mk.inj heq
    exact (h hid).1 hscope
  · exact hpairs.imp fun h hid => (h hid).2

end Session

theorem Signature.relation_beq_iff (name : String) (weight : Number) (b : Signature) :
    (Signature.relation name weight == b) = true ↔
      ∃ weight', b = .relation name weight' ∧ weight.same weight' = true := by
  change Signature.same (.relation name weight) b = true ↔ _
  cases b with
  | relation name' weight' =>
    rw [Signature.same, Bool.and_eq_true, beq_iff_eq]
    constructor
    · rintro ⟨rfl, hsame⟩
      exact ⟨weight', rfl, hsame⟩
    · rintro ⟨weight'', heq, hsame⟩
      obtain ⟨rfl, rfl⟩ := Signature.relation.inj heq
      exact ⟨rfl, hsame⟩
  | «attribute» => simp [Signature.same]
  | function => simp [Signature.same]

/-- Contents agree symmetrically and transitively. -/
instance : PartialEquivBEq Signature where
  symm {a b} h := by
    cases a with
    | relation name weight =>
      obtain ⟨weight', rfl, hsame⟩ := (Signature.relation_beq_iff _ _ _).mp h
      exact (Signature.relation_beq_iff _ _ _).mpr ⟨weight, rfl, Number.same_symm hsame⟩
    | «attribute» =>
      obtain rfl := of_decide_eq_true h
      exact h
    | function =>
      obtain rfl := of_decide_eq_true h
      exact h
  trans {a b c} h h' := by
    cases a with
    | relation name weight =>
      obtain ⟨weight', rfl, hsame⟩ := (Signature.relation_beq_iff _ _ _).mp h
      obtain ⟨weight'', rfl, hsame'⟩ := (Signature.relation_beq_iff _ _ _).mp h'
      exact (Signature.relation_beq_iff _ _ _).mpr ⟨weight'', rfl, Number.same_trans hsame hsame'⟩
    | «attribute» =>
      obtain rfl := of_decide_eq_true h
      exact h'
    | function =>
      obtain rfl := of_decide_eq_true h
      exact h'

/-- The second parallel arc takes the identifier that is the base of the third record, which
shares it from under a morph; the fourth then needs a number of its own. -/
theorem isFirstOpen_meeting_chains :
    let arc : Signature := .relation "has prior_state" (.int 1)
    let cs : List (Claimant Signature) := [⟨"rel_b", none, arc⟩, ⟨"rel_b", none, arc⟩,
      ⟨"rel_b_2", some "m", arc⟩, ⟨"rel_b_2", none, .relation "has prior_state" (.int 2)⟩]
    let gs := (Session.empty : Session Signature).grants cs
    gs.map (·.id) = ["rel_b", "rel_b_2", "rel_b_2", "rel_b_2_2"] ∧
      gs.map (·.toClaimant) = cs ∧
      (∀ i (hi : i < gs.length), Session.IsFirstOpen (gs.take i) gs[i]) ∧
      (gs.map fun g => (g.id, g.scope)).Nodup ∧
      gs.Pairwise fun g g' => g.id = g'.id → (g.signature == g'.signature) = true := by
  intro arc cs gs
  exact ⟨by decide +kernel, Session.isFirstOpen_grants cs⟩

end NoteGraph
