import NoteGraph.Proofs.Operation.Placeholders
import NoteGraph.Proofs.Schema.Findings

/-!
# Spellings that fall together

A node is reported for its spellings exactly when the stream spells it in two ways. The stream
spells a node as each mention of it does in the form of a heading, and once more where a target
declares it: the placeholder shows the target as it is written. So a node that the text always
spells alike is reported too if it has a placeholder whose target is written in another way than a
heading would be.
-/

namespace NoteGraph.Schema

open NoteGraph.Language

/-- Whether the validation of a stream reports that spellings fall together in a node. -/
def Consolidates (c : Catalog) (ops : List Operation) (id : String) : Prop :=
  ∃ surface first, (⟨.surfaceConsolidation surface first, id⟩ : Warning) ∈ validate c ops

/-! ### Reports -/

/-- An entry that stands before already does not count for what is looked up. -/
theorem lookup_append_again {seen rest : List (String × String)} {entry : String × String}
    (h : entry ∈ seen) (id : String) :
    (seen ++ entry :: rest).lookup id = (seen ++ rest).lookup id := by
  rw [List.lookup_append, List.lookup_append]
  by_cases hid : id = entry.1
  · obtain ⟨value, hvalue⟩ : ∃ value, seen.lookup id = some value := by
      rw [← Option.isSome_iff_exists, List.lookup_isSome_iff]
      exact ⟨entry, h, by simp [hid]⟩
    rw [hvalue, Option.some_or, Option.some_or]
  · rw [Keyed.lookup_cons_of_ne hid]

/-- A spelling is reported unless it was seen before or is the first of its node. -/
theorem mem_consolidations_iff {id surface first : String} (spellings : List (String × String)) :
    ∀ seen, (⟨.surfaceConsolidation surface first, id⟩ : Warning) ∈ consolidations seen spellings ↔
      (id, surface) ∈ spellings ∧ (id, surface) ∉ seen ∧
        (seen ++ spellings).lookup id = some first ∧ surface ≠ first := by
  induction spellings with
  | nil => simp [consolidations]
  | cons spelling rest ih =>
    obtain ⟨node, spelled⟩ := spelling
    intro seen
    rw [consolidations, List.mem_cons, Prod.mk.injEq]
    by_cases hseen : (node, spelled) ∈ seen
    · rw [if_pos (by simpa using hseen), ih]
      rw [lookup_append_again hseen]
      constructor
      · rintro ⟨hmem, h⟩
        exact ⟨.inr hmem, h⟩
      · rintro ⟨⟨rfl, rfl⟩ | hmem, hnew, h⟩
        · exact absurd hseen hnew
        · exact ⟨hmem, hnew, h⟩
    · rw [if_neg (by simpa using hseen)]
      have hmore := ih (seen ++ [(node, spelled)])
      rw [List.append_assoc, List.singleton_append, List.mem_append, List.mem_singleton,
        Prod.mk.injEq, not_or] at hmore
      cases hfirst : seen.lookup node with
      | none =>
        -- the first spelling of the node
        rw [hmore]
        constructor
        · rintro ⟨hmem, ⟨hnew, -⟩, h⟩
          exact ⟨.inr hmem, hnew, h⟩
        · rintro ⟨hmem, hnew, hlookup, hne⟩
          have hother : ¬(id = node ∧ surface = spelled) := by
            rintro ⟨rfl, rfl⟩
            rw [List.lookup_append, hfirst, Option.none_or, List.lookup_cons_self] at hlookup
            exact hne (Option.some.inj hlookup)
          exact ⟨hmem.resolve_left hother, ⟨hnew, hother⟩, hlookup, hne⟩
      | some seenFirst =>
        rw [List.mem_cons, hmore, Warning.mk.injEq, Finding.surfaceConsolidation.injEq]
        constructor
        · rintro (⟨⟨rfl, rfl⟩, rfl⟩ | ⟨hmem, ⟨hnew, -⟩, h⟩)
          · refine ⟨.inl ⟨rfl, rfl⟩, hseen, ?_, ?_⟩
            · rw [List.lookup_append, hfirst, Option.some_or]
            · rintro rfl
              exact hseen (Keyed.mem_of_lookup_eq_some hfirst)
          · exact ⟨.inr hmem, hnew, h⟩
        · rintro ⟨hmem, hnew, hlookup, hne⟩
          by_cases hsame : id = node ∧ surface = spelled
          · obtain ⟨rfl, rfl⟩ := hsame
            rw [List.lookup_append, hfirst, Option.some_or] at hlookup
            exact .inl ⟨⟨rfl, (Option.some.inj hlookup).symm⟩, rfl⟩
          · exact .inr ⟨hmem.resolve_left hsame, ⟨hnew, hsame⟩, hlookup, hne⟩

/-- A node is reported exactly if the stream spells it in two ways. -/
theorem consolidates_iff_exists {c : Catalog} {ops : List Operation} {id : String} :
    Consolidates c ops id ↔ ∃ a b, (id, a) ∈ ops.filterMap spelling? ∧
      (id, b) ∈ ops.filterMap spelling? ∧ a ≠ b := by
  have hreported (surface first : String) :
      (⟨.surfaceConsolidation surface first, id⟩ : Warning) ∈ validate c ops ↔
        (id, surface) ∈ ops.filterMap spelling? ∧
          (ops.filterMap spelling?).lookup id = some first ∧ surface ≠ first := by
    rw [validate, List.mem_append, mem_consolidations_iff]
    constructor
    · rintro (⟨hmem, -, h⟩ | h)
      · exact ⟨hmem, h⟩
      · obtain ⟨op, -, h⟩ := List.mem_filterMap.mp h
        obtain ⟨finding, hfinding, heq⟩ := Option.map_eq_some_iff.mp h
        obtain ⟨rfl, -⟩ := Warning.mk.inj heq
        exact absurd hfinding finding?_ne_surfaceConsolidation
    · rintro ⟨hmem, h⟩
      exact .inl ⟨hmem, by simp, h⟩
  constructor
  · rintro ⟨surface, first, h⟩
    obtain ⟨hmem, hfirst, hne⟩ := (hreported surface first).mp h
    exact ⟨surface, first, hmem, Keyed.mem_of_lookup_eq_some hfirst, hne⟩
  · rintro ⟨a, b, ha, hb, hne⟩
    obtain ⟨first, hfirst⟩ : ∃ first, (ops.filterMap spelling?).lookup id = some first := by
      rw [← Option.isSome_iff_exists, List.lookup_isSome_iff]
      exact ⟨_, ha, by simp⟩
    -- one of the two differs from the first spelling
    by_cases hfa : a = first
    · exact ⟨b, first, (hreported b first).mpr ⟨hb, hfirst, fun h => hne (hfa.trans h.symm)⟩⟩
    · exact ⟨a, first, (hreported a first).mpr ⟨ha, hfirst, hfa⟩⟩

/-! ### The spellings of a text -/

/-- How an event spells its node. -/
def spellingOf? : Event → Option (String × String)
  | .declares op => op.node?.map fun record => (op.id, record.displayName)
  | .leads target surface => surface.map fun surface => (target, surface)

theorem spelling?_eq (op : Operation) : spelling? op = op.event?.bind spellingOf? := by
  unfold spelling? Operation.event?
  cases haction : op.action <;> simp [spellingOf?, Operation.node?, haction]

/-- A mention that is no target is told of in its own spelling. -/
theorem spellings_eventsAt {m : Mention} (hm : m.isTarget = false) :
    (eventsAt (m, true)).filterMap spellingOf? = [(m.nodeId, m.spelling)] := by
  cases m <;> first | rfl | cases hm

/-- A target is told of in the form of a heading, after its placeholder shows it as written. -/
theorem spellings_eventsAt_target (relation : String) (t : Target) (isNew : Bool) :
    (eventsAt (.target relation t, isNew)).filterMap spellingOf? =
      (if isNew then [(t.nodeId, t.displayName)] else []) ++ [(t.nodeId, t.surface)] := by
  cases isNew <;> rfl

/-- A stream spells a node as the mentions of the text do and as its placeholder shows it. -/
theorem mem_spellings_iff {text id spelled : String} :
    (id, spelled) ∈ (operationsOf text).filterMap spelling? ↔
      (∃ m ∈ mentions text, m.nodeId = id ∧ m.spelling = spelled) ∨
        ∃ p ∈ placeholders (operationsOf text), p.1.id = id ∧
          p.1.node?.map (·.displayName) = some spelled := by
  have hspellings : (operationsOf text).filterMap spelling? =
      (markedMentions text).flatMap fun m => (eventsAt m).filterMap spellingOf? := by
    rw [← List.filterMap_flatMap, ← events_operationsOf, List.filterMap_filterMap]
    exact List.filterMap_congr fun op _ => spelling?_eq op
  rw [hspellings, List.mem_flatMap]
  constructor
  · rintro ⟨⟨m, isNew⟩, hm, hspelled⟩
    have hmention := mem_of_mem_marked _ _ hm
    cases htarget : m.isTarget with
    | false =>
      obtain rfl := isNew_of_mem_marked htarget _ _ hm
      rw [spellings_eventsAt htarget, List.mem_singleton, Prod.mk.injEq] at hspelled
      exact .inl ⟨m, hmention, hspelled.1.symm, hspelled.2.symm⟩
    | true =>
      obtain ⟨relation, t, rfl⟩ := Mention.isTarget_iff.mp htarget
      rw [spellings_eventsAt_target] at hspelled
      rcases List.mem_append.mp hspelled with hspelled | hspelled
      · cases isNew with
        | false => cases hspelled
        | true =>
          obtain ⟨rfl, rfl⟩ := Prod.mk.inj (List.mem_singleton.mp hspelled)
          obtain ⟨p, hp, hfirst, -⟩ := exists_placeholder hm
          exact .inr ⟨p, hp, congrArg (·.id) hfirst,
            congrArg (·.node?.map (·.displayName)) hfirst⟩
      · obtain ⟨rfl, rfl⟩ := Prod.mk.inj (List.mem_singleton.mp hspelled)
        exact .inl ⟨_, hmention, rfl, rfl⟩
  · rintro (⟨m, hm, rfl, rfl⟩ | ⟨p, hp, rfl, hspelled⟩)
    · obtain ⟨isNew, hmarked⟩ := exists_mem_marked hm (headed (mentions text))
      refine ⟨_, hmarked, ?_⟩
      cases htarget : m.isTarget with
      | false =>
        obtain rfl := isNew_of_mem_marked htarget _ _ hmarked
        rw [spellings_eventsAt htarget]
        exact List.mem_singleton_self _
      | true =>
        obtain ⟨relation, t, rfl⟩ := Mention.isTarget_iff.mp htarget
        rw [spellings_eventsAt_target]
        exact List.mem_append_right _ (List.mem_singleton_self _)
    · obtain ⟨relation, t, ht, hfirst, -⟩ := exists_target_of_mem_placeholders hp
      rw [hfirst] at hspelled ⊢
      refine ⟨_, ht, ?_⟩
      rw [spellings_eventsAt_target, ← Option.some.inj hspelled]
      exact List.mem_append_left _ (List.mem_singleton_self _)

/-! ### One spelling -/

/-- Whether mentions spell a node in two ways. -/
def SpelledTwice (ms : List Mention) (id : String) : Prop :=
  ∃ m ∈ ms, ∃ m' ∈ ms, m.nodeId = id ∧ m'.nodeId = id ∧ m.spelling ≠ m'.spelling

/-- Whether a placeholder shows its node as the relation behind it spells it. -/
def SpellsAlike (p : Operation × RelationRecord) : Prop :=
  p.1.node?.map (·.displayName) = p.2.targetSurface

/-- A node is reported exactly if the text spells it in two ways, or if it has a placeholder that
shows it in another way than the relation behind it spells it. -/
theorem consolidates_iff {c : Catalog} {text id : String} :
    Consolidates c (operationsOf text) id ↔ SpelledTwice (mentions text) id ∨
      ∃ p ∈ placeholders (operationsOf text), p.1.id = id ∧ ¬SpellsAlike p := by
  rw [consolidates_iff_exists]
  simp only [mem_spellings_iff]
  constructor
  · rintro ⟨a, b, ha, hb, hne⟩
    by_cases halike : ∃ p ∈ placeholders (operationsOf text), p.1.id = id ∧ ¬SpellsAlike p
    · exact .inr halike
    · push Not at halike
      have hmention {spelled : String} (h : (∃ m ∈ mentions text, m.nodeId = id ∧
          m.spelling = spelled) ∨ ∃ p ∈ placeholders (operationsOf text), p.1.id = id ∧
            p.1.node?.map (·.displayName) = some spelled) :
          ∃ m ∈ mentions text, m.nodeId = id ∧ m.spelling = spelled := by
        rcases h with h | ⟨p, hp, hid, hspelled⟩
        · exact h
        · obtain ⟨relation, t, ht, hfirst, hsurface⟩ := exists_target_of_mem_placeholders hp
          refine ⟨_, mem_of_mem_marked _ _ ht, by rw [← hid, hfirst, Mention.id_declaration], ?_⟩
          have hshown := halike p hp hid
          rw [SpellsAlike, hspelled, hsurface] at hshown
          exact (Option.some.inj hshown).symm
      obtain ⟨m, hm, hid, rfl⟩ := hmention ha
      obtain ⟨m', hm', hid', rfl⟩ := hmention hb
      exact .inl ⟨m, hm, m', hm', hid, hid', hne⟩
  · rintro (⟨m, hm, m', hm', hid, hid', hne⟩ | ⟨p, hp, hid, halike⟩)
    · exact ⟨_, _, .inl ⟨m, hm, hid, rfl⟩, .inl ⟨m', hm', hid', rfl⟩, hne⟩
    · obtain ⟨relation, t, ht, hfirst, hsurface⟩ := exists_target_of_mem_placeholders hp
      have hspelled : p.1.node?.map (·.displayName) = some t.displayName := by rw [hfirst]; rfl
      refine ⟨t.displayName, t.surface, .inr ⟨p, hp, hid, hspelled⟩, .inl ⟨_,
        mem_of_mem_marked _ _ ht, by rw [← hid, hfirst, Mention.id_declaration], rfl⟩, ?_⟩
      rw [SpellsAlike, hspelled, hsurface] at halike
      exact fun h => halike (congrArg some h)

/-- Whether only nodes that a text spells in two ways are reported, and every placeholder shows
its node as the relation behind it spells it. -/
def OneSpelling (c : Catalog) (text : String) : Prop :=
  (∀ id, Consolidates c (operationsOf text) id → SpelledTwice (mentions text) id) ∧
    ∀ p ∈ placeholders (operationsOf text), SpellsAlike p

/-- The placeholder of a target shows the target as it is written. -/
theorem forall_spellsAlike_iff (text : String) :
    (∀ p ∈ placeholders (operationsOf text), SpellsAlike p) ↔
      ∀ relation t, (Mention.target relation t, true) ∈ markedMentions text →
        t.displayName = t.surface := by
  constructor
  · intro h relation t ht
    obtain ⟨p, hp, hfirst, hsurface⟩ := exists_placeholder ht
    have halike := h p hp
    rw [SpellsAlike, hfirst, hsurface] at halike
    exact Option.some.inj halike
  · intro h p hp
    obtain ⟨relation, t, ht, hfirst, hsurface⟩ := exists_target_of_mem_placeholders hp
    rw [SpellsAlike, hfirst, hsurface]
    exact congrArg some (h relation t ht)

theorem splitAdjective_displayName (raw : String) :
    splitAdjective (Target.ofRaw raw).displayName =
      ((Target.ofRaw raw).adjective, (Target.ofRaw raw).baseName) := by
  unfold Target.ofRaw
  generalize splitWeight _ = weighed
  obtain ⟨weight, target⟩ := weighed
  cases hsplit : splitAdjective target
  simp [hsplit]

/-- A target without an adjective is written in the form of a heading. -/
theorem displayName_eq_surface {raw : String} (h : (Target.ofRaw raw).adjective = none) :
    (Target.ofRaw raw).displayName = (Target.ofRaw raw).surface := by
  have hsplit := splitAdjective_displayName raw
  generalize Target.ofRaw raw = t at h hsplit ⊢
  rw [h, splitAdjective] at hsplit
  rw [Target.surface, h]
  cases hfound : findAdjective? t.displayName.toList with
  | none =>
    rw [hfound] at hsplit
    exact congrArg Prod.snd hsplit
  | some found =>
    rw [hfound] at hsplit
    cases congrArg Prod.fst hsplit

/-- **One spelling is not reported** exactly when every target that gets a placeholder is written
in the form of a heading, as all targets without an adjective are. In any text a node is reported
if and only if its mentions spell it in two ways or its placeholder shows a target that is written
in another form. -/
theorem oneSpelling_iff (c : Catalog) (text : String) :
    (OneSpelling c text ↔ ∀ relation t, t.nodeId ∉ headed (mentions text) →
      firstMention? (mentions text) t.nodeId = some (.target relation t) →
        t.displayName = t.surface) ∧
    (∀ id, Consolidates c (operationsOf text) id ↔ SpelledTwice (mentions text) id ∨
      ∃ p ∈ placeholders (operationsOf text), p.1.id = id ∧ ¬SpellsAlike p) ∧
    ∀ raw, (Target.ofRaw raw).adjective = none →
      (Target.ofRaw raw).displayName = (Target.ofRaw raw).surface := by
  refine ⟨?_, fun _ => consolidates_iff, fun _ => displayName_eq_surface⟩
  have hwritten := forall_spellsAlike_iff text
  simp only [markedMentions, target_mem_marked_iff, and_imp] at hwritten
  rw [← hwritten]
  refine ⟨And.right, fun h => ⟨fun id hid => (consolidates_iff.mp hid).resolve_right ?_, h⟩⟩
  rintro ⟨p, hp, -, halike⟩
  exact halike (h p hp)

instance (p : Operation × RelationRecord) : Decidable (SpellsAlike p) :=
  inferInstanceAs (Decidable (_ = _))

/-- A node that is mentioned once, with its adjective between single stars, is reported. -/
theorem not_oneSpelling_single_stars :
    ¬OneSpelling .default "# a [class]\n<is_a> *hot* water;" ∧
      ((mentions "# a [class]\n<is_a> *hot* water;").filter (·.nodeId == "hot_water")).length = 1 ∧
      Consolidates .default (operationsOf "# a [class]\n<is_a> *hot* water;") "hot_water" := by
  refine ⟨fun h => ?_, by decide +kernel, "**hot** water", "*hot* water", by decide +kernel⟩
  have hunlike : ¬∀ p ∈ placeholders (operationsOf "# a [class]\n<is_a> *hot* water;"),
      SpellsAlike p := by decide +kernel
  exact hunlike h.2

end NoteGraph.Schema
