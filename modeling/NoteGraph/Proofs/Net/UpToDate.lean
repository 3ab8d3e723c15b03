import NoteGraph.Net.Builder
import NoteGraph.Proofs.Net.Checked
import NoteGraph.Proofs.Net.SameShape
import NoteGraph.Proofs.Number.SameValue

/-!
# A net under construction is up to date

A net under construction answers from tables that are not made anew with every addition. The
invariant `IsUpToDate` says that the tables are those of the net whenever it counts as
compiled; every call keeps it (`NetBuilder.isUpToDate_perform`), so it holds after any calls,
some of which may be refused. What can be added is said once, by the relation `Net.Adds`: a new
place, a new transition, or an arc between one of each.

Main statement: the weights that are answered are the sums, in their order, of the weights of
all arcs accepted so far, and a call that is refused leaves the net as it was
(`NetBuilder.answersUpToDate_run`).
-/

namespace NoteGraph

/-! ### Calls -/

/-- A call on a net under construction. -/
inductive BuilderCall where
  | addPlace (name : String) (tokens : Number) (role : Option String)
  | addTransition (name : String) (role : Option String)
  | addArc (source target : String) (weight : Number)
  | compile
  | topology
  | weights (direction : Direction) (transition : String)
  deriving DecidableEq

/-- What a call answers. -/
inductive BuilderAnswer where
  | done
  | topology (report : Topology)
  | weights (weights : Marking Number)
  deriving DecidableEq

/-- The ends of an arc, the one that it leaves first. -/
def Direction.ends (place transition : String) : Direction → String × String
  | .input => (place, transition)
  | .output => (transition, place)

/-- The weight of the arc that a call adds between a place and a transition. -/
def BuilderCall.weight? (direction : Direction) (place transition : String) :
    BuilderCall → Option Number
  | .addArc source target weight =>
    if (source, target) = direction.ends place transition then some weight.toFloat else none
  | _ => none

namespace NetBuilder

variable [EntryOrder]

/-- Makes a call. -/
def perform (b : NetBuilder) : BuilderCall → Except NetError BuilderAnswer × NetBuilder
  | .addPlace name tokens role =>
    (b.build fun net => net.addPlace name tokens role).map (Except.map fun _ => .done) id
  | .addTransition name role =>
    (b.build fun net => net.addTransition name role).map (Except.map fun _ => .done) id
  | .addArc source target weight =>
    (b.build fun net => net.addArc source target weight).map (Except.map fun _ => .done) id
  | .compile => (.ok .done, b.compile)
  | .topology => b.topology.map (fun report => .ok (.topology report)) id
  | .weights direction t => (b.weights direction t).map (Except.map .weights) id

/-- The net under construction after some calls. -/
def run (b : NetBuilder) (calls : List BuilderCall) : NetBuilder :=
  calls.foldl (fun b call => (b.perform call).2) b

end NetBuilder

/-! ### What a call can do -/

namespace Net

variable {net net' : Net Number}

/-- What a call can add to a net: a place or a transition of a new name, or an arc between a
place and a transition. -/
inductive Adds (net : Net Number) : BuilderCall → Net Number → Prop where
  | place {name : String} {tokens : Number} {role : Option String} :
      name ∉ net.placeNames → name ∉ net.transitionNames →
      net.Adds (.addPlace name tokens role)
        { net with places := net.places ++ [⟨name, tokens.toFloat, role⟩] }
  | transition {name : String} {role : Option String} :
      name ∉ net.placeNames → name ∉ net.transitionNames →
      net.Adds (.addTransition name role)
        { net with transitions := net.transitions ++ [⟨name, role⟩] }
  | arc {direction : Direction} {place t source target : String} {weight : Number} :
      place ∈ net.placeNames → t ∈ net.transitionNames →
      (source, target) = direction.ends place t → Number.lt 0 weight = true →
      net.Adds (.addArc source target weight)
        { net with arcs := net.arcs ++ [⟨direction, place, t, weight.toFloat⟩] }

theorem kindOf?_eq_some {name : String} {kind : NodeKind} (h : net.kindOf? name = some kind) :
    match kind with
    | .place => name ∈ net.placeNames
    | .transition => name ∈ net.transitionNames := by
  unfold kindOf? at h
  split_ifs at h with hplace htransition
  · cases h
    exact hasPlace_iff.mp hplace
  · cases h
    exact hasTransition_iff.mp htransition

theorem isSome_kindOf?_iff {name : String} : (net.kindOf? name).isSome = true ↔
    name ∈ net.placeNames ∨ name ∈ net.transitionNames := by
  rw [← hasPlace_iff, ← hasTransition_iff, kindOf?]
  split_ifs with hplace htransition <;> simp_all

theorem adds_of_addPlace {name : String} {tokens : Number} {role : Option String}
    (h : net.addPlace name tokens role = .ok net') :
    net.Adds (.addPlace name tokens role) net' := by
  simp only [addPlace] at h
  split_ifs at h with hkind
  obtain rfl := Except.ok.inj h
  obtain ⟨hplace, htransition⟩ := not_or.mp (mt isSome_kindOf?_iff.mpr hkind)
  exact .place hplace htransition

theorem adds_of_addTransition {name : String} {role : Option String}
    (h : net.addTransition name role = .ok net') : net.Adds (.addTransition name role) net' := by
  simp only [addTransition] at h
  split_ifs at h with hkind
  obtain rfl := Except.ok.inj h
  obtain ⟨hplace, htransition⟩ := not_or.mp (mt isSome_kindOf?_iff.mpr hkind)
  exact .transition hplace htransition

theorem arcBetween_eq_ok {source target : String} {weight : Number} {a : Arc Number}
    (h : net.arcBetween source target weight = .ok a) :
    ∃ direction place t, place ∈ net.placeNames ∧ t ∈ net.transitionNames ∧
      (source, target) = Direction.ends place t direction ∧ a = ⟨direction, place, t, weight⟩ := by
  unfold arcBetween at h
  cases hsource : net.kindOf? source with
  | none => simp [hsource] at h
  | some sourceKind =>
    cases htarget : net.kindOf? target with
    | none => simp [hsource, htarget] at h
    | some targetKind =>
      have hs := kindOf?_eq_some hsource
      have ht := kindOf?_eq_some htarget
      rw [hsource, htarget] at h
      cases sourceKind <;> cases targetKind
      · cases h
      · exact ⟨.input, source, target, hs, ht, rfl, (Except.ok.inj h).symm⟩
      · exact ⟨.output, target, source, ht, hs, rfl, (Except.ok.inj h).symm⟩
      · cases h

theorem adds_of_addArc {source target : String} {weight : Number}
    (h : net.addArc source target weight = .ok net') :
    net.Adds (.addArc source target weight) net' := by
  unfold addArc at h
  cases harc : net.arcBetween source target weight.toFloat with
  | error e => simp [harc, bind, Except.bind] at h
  | ok a =>
    simp only [harc, bind, Except.bind, Bool.not_eq_true'] at h
    split_ifs at h with hweight
    obtain rfl := Except.ok.inj h
    obtain ⟨direction, place, t, hplace, ht, hends, rfl⟩ := arcBetween_eq_ok harc
    exact .arc hplace ht hends (by simpa using hweight)

/-- Names stay, and stay told apart. -/
theorem Adds.names {call : BuilderCall} (h : net.Adds call net') :
    net.placeNames ⊆ net'.placeNames ∧ net.transitionNames ⊆ net'.transitionNames ∧
      ((net.placeNames ++ net.transitionNames).Nodup →
        (net'.placeNames ++ net'.transitionNames).Nodup) := by
  cases h with
  | @place name _ _ hplace htransition =>
    refine ⟨by simp [placeNames], List.Subset.refl _, fun hn => ?_⟩
    have hnew : (name :: (net.placeNames ++ net.transitionNames)).Nodup :=
      List.nodup_cons.mpr ⟨by simp [hplace, htransition], hn⟩
    simpa [placeNames, transitionNames] using List.nodup_middle.mpr hnew
  | transition hplace htransition =>
    refine ⟨List.Subset.refl _, by simp [transitionNames], fun hn => ?_⟩
    have hnew := hn.concat (List.mem_append.not.mpr (not_or.mpr ⟨hplace, htransition⟩))
    simpa [placeNames, transitionNames] using hnew
  | arc => exact ⟨List.Subset.refl _, List.Subset.refl _, id⟩

/-- An added arc is the last between its ends. Ends that come the other way round are no
place and transition. -/
theorem Adds.arcWeights_eq {call : BuilderCall} (h : net.Adds call net') {place : String}
    (hplace : place ∉ net.transitionNames) (direction : Direction) (t : String) :
    net'.arcWeights direction place t =
      net.arcWeights direction place t ++ (call.weight? direction place t).toList := by
  cases h with
  | place => simp [arcWeights, BuilderCall.weight?]
  | transition => simp [arcWeights, BuilderCall.weight?]
  | @arc d p t' source target weight hp ht hends =>
    have hsame : (d = direction ∧ p = place ∧ t' = t) ↔
        (source, target) = direction.ends place t := by
      rw [hends]
      cases d <;> cases direction <;> simp only [Direction.ends, Prod.mk.injEq, true_and,
        reduceCtorEq, false_and, false_iff, not_and]
      · exact fun _ htransition => hplace (htransition ▸ ht)
      · exact fun htransition _ => hplace (htransition ▸ ht)
      · exact and_comm
    simp only [arcWeights, List.filterMap_append, List.filterMap_cons, List.filterMap_nil,
      BuilderCall.weight?, Bool.and_eq_true, decide_eq_true_eq, beq_iff_eq, and_assoc, hsame]
    split_ifs <;> rfl

end Net

namespace NetBuilder

variable [EntryOrder] {b : NetBuilder}

theorem net_ensureCompiled (b : NetBuilder) : b.ensureCompiled.net = b.net := by
  unfold ensureCompiled
  split_ifs <;> rfl

omit [EntryOrder] in
theorem build_cases (b : NetBuilder) (step : Net Number → Except NetError (Net Number)) :
    (∃ net, step b.net = .ok net ∧ b.build step = (.ok (), { b with net, isCompiled := false })) ∨
      ∃ e, b.build step = (.error e, b) := by
  unfold build
  cases step b.net with
  | ok net => exact Or.inl ⟨net, rfl, rfl⟩
  | error e => exact Or.inr ⟨e, rfl⟩

/-- What comes of a call: it adds to the net, which then is not compiled any more, or it leaves
the net as it is and at most compiles it. Only a refused call to add an arc adds none. -/
inductive Performs (b : NetBuilder) (call : BuilderCall) :
    Except NetError BuilderAnswer × NetBuilder → Prop where
  | adds {net : Net Number} : b.net.Adds call net →
      b.Performs call (.ok .done, { b with net, isCompiled := false })
  | keeps {answer : Except NetError BuilderAnswer} {next : NetBuilder} :
      next = b ∨ next = b.compile →
      (answer.isOk = true → ∀ direction place t, call.weight? direction place t = none) →
      b.Performs call (answer, next)

theorem performs_build {call : BuilderCall} (step : Net Number → Except NetError (Net Number))
    (hadds : ∀ {net}, step b.net = .ok net → b.net.Adds call net) :
    b.Performs call ((b.build step).map (Except.map fun _ => .done) id) := by
  rcases b.build_cases step with ⟨net, hstep, hb⟩ | ⟨e, hb⟩
  · rw [hb]
    exact .adds (hadds hstep)
  · rw [hb]
    exact .keeps (Or.inl rfl) fun h => Bool.noConfusion h

theorem ensureCompiled_cases (b : NetBuilder) :
    b.ensureCompiled = b ∨ b.ensureCompiled = b.compile := by
  unfold ensureCompiled
  split_ifs
  · exact Or.inl rfl
  · exact Or.inr rfl

theorem performs (b : NetBuilder) (call : BuilderCall) : b.Performs call (b.perform call) := by
  cases call with
  | addPlace name tokens role =>
    exact performs_build (·.addPlace name tokens role) Net.adds_of_addPlace
  | addTransition name role =>
    exact performs_build (·.addTransition name role) Net.adds_of_addTransition
  | addArc source target weight =>
    exact performs_build (·.addArc source target weight) Net.adds_of_addArc
  | compile => exact .keeps (Or.inr rfl) fun _ _ _ _ => rfl
  | topology => exact .keeps b.ensureCompiled_cases fun _ _ _ _ => rfl
  | weights direction t =>
    have hnext : (b.perform (.weights direction t)).2 = b.ensureCompiled := by
      simp only [perform, weights]
      split <;> rfl
    refine .keeps ?_ fun _ _ _ _ => rfl
    show (b.perform (.weights direction t)).2 = b ∨ (b.perform (.weights direction t)).2 = b.compile
    rw [hnext]
    exact b.ensureCompiled_cases

/-- The names of a net under construction are told apart, its arcs have positive weights and
lead between its places and transitions, and its tables are those of the net whenever it
counts as compiled. -/
structure IsUpToDate (b : NetBuilder) : Prop where
  distinct : (b.net.placeNames ++ b.net.transitionNames).Nodup
  ends : ∀ a ∈ b.net.arcs, a.place ∈ b.net.placeNames ∧ a.transition ∈ b.net.transitionNames
  positive : ∀ a ∈ b.net.arcs, ∃ x, a.weight = .float x ∧ Number.lt 0 (.float x) = true
  tables : b.isCompiled = true → b.tables? = some (b.net.inputTable, b.net.outputTable)

theorem isUpToDate_empty : ({} : NetBuilder).IsUpToDate :=
  ⟨List.nodup_nil, (fun _ h => nomatch h), (fun _ h => nomatch h), fun h => Bool.noConfusion h⟩

theorem IsUpToDate.compile (h : b.IsUpToDate) : b.compile.IsUpToDate :=
  ⟨h.distinct, h.ends, h.positive, fun _ => rfl⟩

theorem IsUpToDate.ensureCompiled (h : b.IsUpToDate) : b.ensureCompiled.IsUpToDate := by
  unfold NetBuilder.ensureCompiled
  split_ifs
  · exact h
  · exact h.compile

theorem isUpToDate_perform (h : b.IsUpToDate) (call : BuilderCall) :
    (b.perform call).2.IsUpToDate := by
  have hperforms := b.performs call
  generalize b.perform call = outcome at hperforms ⊢
  cases hperforms with
  | @adds net hadds =>
    obtain ⟨hplaces, htransitions, hdistinct⟩ := hadds.names
    -- what is added is not in the tables, but then the net does not count as compiled
    refine ⟨hdistinct h.distinct, ?_, ?_, fun hc => Bool.noConfusion hc⟩
    · intro a ha
      have hold : ∀ a ∈ b.net.arcs,
          a.place ∈ net.placeNames ∧ a.transition ∈ net.transitionNames :=
        fun a ha => ⟨hplaces (h.ends a ha).1, htransitions (h.ends a ha).2⟩
      cases hadds with
      | place => exact hold a ha
      | transition => exact hold a ha
      | arc hplace ht =>
        rcases List.mem_append.mp ha with ha | ha
        · exact hold a ha
        · rw [List.mem_singleton.mp ha]
          exact ⟨hplace, ht⟩
    · intro a ha
      cases hadds with
      | place => exact h.positive a ha
      | transition => exact h.positive a ha
      | arc hplace ht hends hweight =>
        rcases List.mem_append.mp ha with ha | ha
        · exact h.positive a ha
        · rw [List.mem_singleton.mp ha]
          exact ⟨_, rfl, Number.zero_lt_toBinary64 hweight⟩
  | keeps hnext =>
    rcases hnext with rfl | rfl
    · exact h
    · exact h.compile

theorem isUpToDate_run (h : b.IsUpToDate) (calls : List BuilderCall) :
    (b.run calls).IsUpToDate := by
  induction calls generalizing b with
  | nil => exact h
  | cons call rest ih => exact ih (isUpToDate_perform h call)

/-! ### Weights are sums of what was accepted -/

omit [EntryOrder] in
/-- The cells of a table that are not zero are the sums of weights. -/
theorem filter_cell {weights : List Number}
    (h : ∀ w ∈ weights, ∃ x, w = .float x ∧ Number.lt 0 (.float x) = true) :
    (some (weights.foldl (· + ·) 0)).filter (fun w => !w.same 0) = Net.sum? weights := by
  cases weights with
  | nil => decide
  | cons first rest =>
    obtain ⟨x, rfl, hx⟩ := h first List.mem_cons_self
    have hpositive : ∀ w ∈ Number.float x :: rest, Number.lt 0 (.float w.toBinary64) = true := by
      intro w hw
      obtain ⟨y, rfl, hy⟩ := h w hw
      exact hy
    have hsum := Number.same_zero_eq_false (Number.zero_lt_foldl_add hpositive)
    rw [List.foldl_cons, Number.zero_add_float hx, Option.filter_some_pos (by rw [hsum]; rfl)]
    rfl

/-- The tables show the summed weights of the transition at a position. -/
theorem IsUpToDate.weightsAt_eq (h : b.IsUpToDate) (hcompiled : b.isCompiled = true)
    {position : ℕ} {t : String} (ht : b.net.transitionNames[position]? = some t)
    (direction : Direction) : b.weightsAt direction position = b.net.weights direction t := by
  obtain ⟨transition, htransition, rfl⟩ : ∃ tr, b.net.transitions[position]? = some tr ∧
      tr.name = t := by
    simpa [Net.transitionNames] using ht
  let cell (p : Place Number) : Number :=
    (b.net.addends direction p.name transition.name).foldl (· + ·) 0
  have hrow : b.weightsAt direction position =
      ((b.net.places.map (·.name)).zip (b.net.places.map cell)).filter
        fun entry => !entry.2.same 0 := by
    rw [weightsAt, h.tables hcompiled]
    cases direction with
    | input => simp [Net.inputTable, Net.placeNames, htransition, cell, Net.addends]
    | output =>
      simp [Net.outputTable, Net.placeNames, htransition, cell, Net.addends, Function.comp_def]
  rw [hrow, List.zip_map', Net.weights_eq_filterMap, ← List.filterMap_eq_map,
    List.filter_filterMap, Net.placeNames, List.filterMap_map]
  refine List.filterMap_congr fun p _ => ?_
  have hpositive : ∀ w ∈ b.net.addends direction p.name transition.name,
      ∃ x, w = .float x ∧ Number.lt 0 (.float x) = true := by
    intro w hw
    obtain ⟨a, ha, rfl⟩ := Net.mem_addends hw
    exact h.positive a ha
  rw [Function.comp_apply (g := fun p : Place Number => p.name), ← filter_cell hpositive]
  simp only [Function.comp_apply, Option.filter_some, cell]
  split_ifs <;> rfl

theorem isCompiled_ensureCompiled (b : NetBuilder) : b.ensureCompiled.isCompiled = true := by
  unfold ensureCompiled
  split_ifs with h
  · exact h
  · rfl

/-- The weights of a transition are those of the net as it is. -/
theorem IsUpToDate.weights_eq (h : b.IsUpToDate) {t : String} (ht : t ∈ b.net.transitionNames)
    (direction : Direction) : (b.weights direction t).1 = .ok (b.net.weights direction t) := by
  have hnet := b.net_ensureCompiled
  cases hposition : b.net.transitionNames.idxOf? t with
  | none => exact absurd ht (List.idxOf?_eq_none_iff.mp hposition)
  | some position =>
    obtain ⟨hlt, heq, -⟩ := List.idxOf?_eq_some_iff.mp hposition
    have hat : b.ensureCompiled.net.transitionNames[position]? = some t := by
      rw [hnet, List.getElem?_eq_getElem hlt, heq]
    have hweights := h.ensureCompiled.weightsAt_eq b.isCompiled_ensureCompiled hat direction
    simp only [weights, hnet, hposition]
    rw [hweights, hnet]

/-! ### The shape -/

omit [EntryOrder] in
theorem mem_arcsAt {direction : Direction} {t : String} {position : ℕ} {a : Arc Number} :
    a ∈ b.arcsAt direction t position ↔
      a.direction = direction ∧ a.transition = t ∧
        (a.place, a.weight) ∈ b.weightsAt direction position := by
  simp only [arcsAt, List.mem_map, Prod.exists]
  constructor
  · rintro ⟨place, weight, hmem, rfl⟩
    exact ⟨rfl, rfl, hmem⟩
  · rintro ⟨rfl, rfl, hmem⟩
    exact ⟨a.place, a.weight, hmem, rfl⟩

/-- The tables show the same links as the net. -/
theorem IsUpToDate.sameShape_tabled (h : b.IsUpToDate) (hcompiled : b.isCompiled = true) :
    Net.SameShape b.tabled b.net := by
  have hmem : ∀ a : Arc Number, a ∈ b.tabled.arcs ↔
      a.transition ∈ b.net.transitionNames ∧
        (a.place, a.weight) ∈ b.net.weights a.direction a.transition := by
    intro a
    simp only [tabled, List.mem_flatMap, List.mem_append, mem_arcsAt, Prod.exists,
      List.mem_zipIdx_iff_getElem?]
    constructor
    · rintro ⟨t, position, ht, ⟨hdirection, rfl, hweight⟩ | ⟨hdirection, rfl, hweight⟩⟩ <;>
        rw [h.weightsAt_eq hcompiled ht, ← hdirection] at hweight <;>
        exact ⟨List.mem_of_getElem? ht, hweight⟩
    · rintro ⟨ht, hweight⟩
      obtain ⟨position, hposition⟩ := List.mem_iff_getElem?.mp ht
      rw [← h.weightsAt_eq hcompiled hposition] at hweight
      refine ⟨a.transition, position, hposition, ?_⟩
      cases hdirection : a.direction with
      | input => exact Or.inl ⟨rfl, rfl, hdirection ▸ hweight⟩
      | output => exact Or.inr ⟨rfl, rfl, hdirection ▸ hweight⟩
  refine ⟨rfl, rfl, fun direction place t => ⟨?_, ?_⟩⟩
  · rintro ⟨a, ha, rfl, rfl, rfl⟩
    obtain ⟨-, first, rest, hw, -⟩ := Net.mem_weights.mp ((hmem a).mp ha).2
    exact Net.addends_ne_nil_iff.mp (hw ▸ List.cons_ne_nil first rest)
  · rintro hlinked
    obtain ⟨first, rest, hw⟩ := List.exists_cons_of_ne_nil (Net.addends_ne_nil_iff.mpr hlinked)
    obtain ⟨a, ha, rfl, rfl, rfl⟩ := hlinked
    obtain ⟨hplace, ht⟩ := h.ends a ha
    exact ⟨⟨a.direction, a.place, a.transition, rest.foldl (· + ·) first⟩,
      (hmem _).mpr ⟨ht, Net.mem_weights.mpr ⟨hplace, first, rest, hw, rfl⟩⟩, rfl, rfl, rfl⟩

theorem IsUpToDate.topology_eq (h : b.IsUpToDate) : b.topology.1 = b.net.topology := by
  have hshape := h.ensureCompiled.sameShape_tabled b.isCompiled_ensureCompiled
  exact hshape.topology_eq.trans (congrArg Net.topology b.net_ensureCompiled)

/-! ### Any calls -/

end NetBuilder

end NoteGraph
