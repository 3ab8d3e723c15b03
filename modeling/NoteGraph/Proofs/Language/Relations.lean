import Mathlib.Tactic.NormNum
import NoteGraph.Proofs.Language.Headings
import NoteGraph.Proofs.Language.Trailing
import NoteGraph.Proofs.Ledger.Amount
import NoteGraph.Proofs.Number.Nearest

/-!
# Relation lines as they are written

A relation line is written with a name between angles and with targets that end with semicolons,
each a weight of at most two decimals, an adjective between stars or none, and a base name. It is
read as the name and the targets that it was written from, and a target names the node that a
heading of the same spelling does (`RelationText.isRead`). One thing may be lost: a weight is read
as the nearest floating-point number, so it is kept as it is exactly if there is one of its value.
-/

namespace NoteGraph.Language

open Text
open NoteGraph.Number (digitsValue plainDigit)
open NoteGraph.Ledger (PlainFraction)

/-! ### What is written -/

/-- The marks of a target, its end and the end of its line. -/
def targetMarks : List Char := ['*', '[', ']', ';', '\n']

/-- A target as it is written. -/
structure TargetText where
  weight : PlainFraction
  adjective : Option (Phrase targetMarks)
  baseName : Phrase targetMarks
  sign_weight : weight.sign = none
  length_places_le : weight.places.length ≤ 2

/-- A relation line as it is written. -/
structure RelationText where
  name : Phrase ['>', '\n']
  targets : List TargetText

/-- The stars around an adjective. -/
def stars (double : Bool) : List Char := if double then ['*', '*'] else ['*']

namespace TargetText

variable (t : TargetText) (double : Bool)

/-- A target without its weight. -/
def named : List Char := marked (stars double) t.adjective t.baseName.text

/-- The text of a target. -/
def text : List Char := t.weight.text ++ ' ' :: t.named double

/-- The value of the weight. -/
def value : ℚ := t.weight.decimal.digits / (10 ^ t.weight.places.length : ℕ)

/-- What is read of a target with double stars. -/
def target : Target where
  nodeId := nodeId t.baseName.toString (t.adjective.map Phrase.toString)
  baseName := t.baseName.toString
  displayName := String.ofList (t.named true)
  weight := .ofWhole (.ofRatio false t.weight.decimal.digits (10 ^ t.weight.places.length))
  adjective := t.adjective.map Phrase.toString

end TargetText

/-- The line of a relation, with double or single stars around adjectives. -/
def RelationText.line (r : RelationText) (double : Bool) : List Char :=
  '<' :: (r.name.text ++ '>' :: r.targets.flatMap fun t => ' ' :: (t.text double ++ [';']))

/-! ### Weights -/

section Weights

variable {blank : Char} (hblank : isBlank blank = true)
include hblank

theorem isDigit_of_isBlank : isDigit blank = false := by
  by_contra hdigit
  rw [Text.isBlank_of_isDigit (eq_true_of_ne_false hdigit)] at hblank
  cases hblank

theorem weightPlaces_pointed {places : List Char} (hdigits : places.all isDigit = true)
    (hshort : places.length ≤ 2) (rest : List Char) :
    weightPlaces (PlainFraction.pointed places ++ blank :: rest) =
      PlainFraction.pointed places := by
  have hstop : ∀ c ∈ (blank :: rest).head?, isDigit c = false :=
    forall_mem_head?_cons.mpr (isDigit_of_isBlank hblank)
  obtain ⟨htake, -⟩ := takeWhile_append_stop hdigits hstop
  cases places with
  | nil =>
    have hpoint : blank ≠ '.' := by
      rintro rfl
      cases hblank
    simp [PlainFraction.pointed, weightPlaces, hpoint]
  | cons c places =>
    simp only [PlainFraction.pointed, List.isEmpty_cons, Bool.false_eq_true, if_false,
      List.cons_append, weightPlaces] at htake ⊢
    rw [htake, List.take_of_length_le hshort]
    rfl

/-- The numeral of a weight ends where a blank is. -/
theorem weightNumeral?_append {weight : PlainFraction} (hsign : weight.sign = none)
    (hshort : weight.places.length ≤ 2) (rest : List Char) :
    weightNumeral? (weight.text ++ blank :: rest) =
      (lineAfterBlanks? (blank :: rest)).map (weight.text, ·) := by
  have htext : weight.text = weight.whole ++ PlainFraction.pointed weight.places := by
    rw [PlainFraction.text, hsign]
    rfl
  have hrun : run? isDigit (weight.text ++ blank :: rest) =
      some (weight.whole, PlainFraction.pointed weight.places ++ blank :: rest) := by
    rw [htext, List.append_assoc]
    refine run?_append weight.whole_ne_nil weight.isDigit_whole ?_
    cases weight.places with
    | nil => exact forall_mem_head?_cons.mpr (isDigit_of_isBlank hblank)
    | cons d places => exact forall_mem_head?_cons.mpr (by decide)
  rw [weightNumeral?, hrun]
  simp [weightPlaces_pointed hblank weight.isDigit_places hshort, htext, Option.map_eq_bind]

end Weights

namespace TargetText

variable (t : TargetText) (double : Bool)

theorem weightNumeral?_text {rest : List Char} (hline : IsLine rest) (hne : rest ≠ [])
    (hblank : ∀ c ∈ rest.head?, isBlank c = false) :
    weightNumeral? (t.weight.text ++ ' ' :: rest) = some (t.weight.text, rest) := by
  have hspace : isBlank ' ' = true := rfl
  have hname : lineAfterBlanks? (' ' :: rest) = some rest := by
    rw [lineAfterBlanks?, restsAfterSome_cons hspace hblank, List.findSome?_singleton,
      someLine?_eq hline, if_neg (by simpa using hne)]
  rw [weightNumeral?_append hspace t.sign_weight t.length_places_le, hname]
  rfl

theorem toBinary64_decimal : t.weight.decimal.toBinary64 =
    .ofRatio false t.weight.decimal.digits (10 ^ t.weight.places.length) := by
  have hshort := t.length_places_le
  have hsign : t.weight.decimal.negative = false := by
    rw [PlainFraction.decimal, t.sign_weight]
    rfl
  have hexponent : t.weight.decimal.exponent = -(t.weight.places.length : ℤ) := rfl
  rw [Number.Decimal.toBinary64, hsign, hexponent]
  generalize t.weight.places.length = places at hshort
  split_ifs with hzero
  · -- zero is read without its places
    rw [hzero, Number.Binary64.ofRatio_zero, Number.Binary64.ofRatio_zero _ (10 ^ places)]
  · omega
  · omega
  · simp

theorem splitWeight_text {rest : List Char} (hline : IsLine rest) (hne : rest ≠ [])
    (hblank : ∀ c ∈ rest.head?, isBlank c = false) :
    splitWeight (String.ofList (t.weight.text ++ ' ' :: rest)) =
      (t.target.weight, trimmed rest) := by
  rw [splitWeight, String.toList_ofList, t.weightNumeral?_text hline hne hblank]
  simp [Number.ofNumeral, Number.readNumeral, t.weight.readNumeral?_text, Except.map,
    t.toBinary64_decimal, target]

end TargetText

/-! ### Adjectives -/

theorem findAdjective?_eq_none {cs : List Char} (h : '*' ∉ cs) : findAdjective? cs = none := by
  induction cs with
  | nil => rfl
  | cons c rest ih =>
    obtain ⟨hc, hrest⟩ := not_or.mp (List.mem_cons.not.mp h)
    have hnone : after? ['*'] (c :: rest) = none :=
      after?_eq_none (forall_mem_head?_cons.mpr (Ne.symm hc)) []
    rw [findAdjective?, adjectiveHere?, hnone, ih hrest]
    rfl

theorem adjectiveHere?_marked (double : Bool) (x base : Phrase targetMarks) :
    adjectiveHere? (marked (stars double) (some x) base.text) = some (x.text, base.text) := by
  have hspace : isBlank ' ' = true := rfl
  have hstar : x.text.all (· != '*') = true :=
    List.all_eq_true.mpr fun c hc => bne_iff_ne.mpr (x.ne_of_mem hc (by decide))
  have hrun (more : List Char) : run? (· != '*') (x.text ++ '*' :: more) =
      some (x.text, '*' :: more) := run?_append x.ne_nil hstar (by simp)
  have hmark (rest : List Char) : after? ['*'] ('*' :: rest) = some rest :=
    after?_eq_some_iff.mpr rfl
  have hsingle (rest : List Char) : after? ['*'] (x.text ++ rest) = none :=
    after?_eq_none (x.ne_of_head? (by decide) rest) []
  have hend : after? ['*'] (' ' :: base.text) = none := rfl
  have hskip : restsAfterSome isBlank (' ' :: base.text) = [base.text] := by
    refine restsAfterSome_cons hspace fun c hc => base.isBlank_of_head? [] c ?_
    rwa [List.append_nil]
  have hline := List.all_eq_true.mp (base.all_inLine (by decide))
  have hhead : base.text.head?.any inLine = true := by
    obtain ⟨c, hc, -, hhead⟩ := base.head?_append []
    rw [List.append_nil] at hhead
    rw [hhead]
    exact hline c hc
  cases double <;>
    simp [adjectiveHere?, marked, stars, hmark, hsingle, hend, hrun, hskip, hhead,
      List.takeWhile_eq_self_iff.mpr hline]

/-! ### Targets -/

namespace TargetText

variable (t : TargetText) (double : Bool)

theorem splitAdjective_named : splitAdjective (String.ofList (t.named double)) =
    (t.adjective.map Phrase.toString, t.baseName.toString) := by
  rw [splitAdjective, String.toList_ofList, named]
  cases t.adjective with
  | none =>
    rw [marked, findAdjective?_eq_none (t.baseName.notMem_text (by decide))]
    rfl
  | some x =>
    have hcons : ∃ rest, marked (stars double) (some x) t.baseName.text = '*' :: rest := by
      cases double <;> exact ⟨_, rfl⟩
    have hhere := adjectiveHere?_marked double x t.baseName
    obtain ⟨rest, hrest⟩ := hcons
    rw [hrest] at hhere ⊢
    rw [findAdjective?, hhere, Option.map_some, ← x.trimmed_text, ← t.baseName.trimmed_text]
    rfl

/-- A target ends as its base name does. -/
theorem getLast?_named : (t.named double).getLast? = t.baseName.text.getLast? := by
  rw [named]
  cases t.adjective with
  | none => rfl
  | some x =>
    have hfront : marked (stars double) (some x) t.baseName.text =
        stars double ++ (x.text ++ (stars double ++ [' '])) ++ t.baseName.text := by
      simp [marked]
    rw [hfront, List.getLast?_append_of_ne_nil _ t.baseName.ne_nil]

theorem trim_named : trim (t.named double) = t.named double := by
  refine trim_eq_self_iff.mpr ⟨?_, ?_⟩
  · rw [named]
    cases t.adjective with
    | none => exact (trim_eq_self_iff.mp t.baseName.trim_text).1
    | some x => cases double <;> exact forall_mem_head?_cons.mpr (by decide)
  · rw [getLast?_named]
    exact (trim_eq_self_iff.mp t.baseName.trim_text).2

theorem named_ne_nil : t.named double ≠ [] := by
  intro h
  have hlast := t.getLast?_named double
  rw [h, List.getLast?_nil, eq_comm, List.getLast?_eq_none_iff] at hlast
  exact t.baseName.ne_nil hlast

theorem notMem_named {c : Char} (hc : c ∈ [';', '\n']) : c ∉ t.named double := by
  have hmarks : c ∈ targetMarks ∧ c ≠ '*' ∧ c ≠ ' ' := by
    simp only [List.mem_cons, List.not_mem_nil, or_false] at hc
    rcases hc with rfl | rfl <;> decide
  have hstars : c ∉ stars double := by
    cases double <;> simp [stars, hmarks.2.1]
  rw [named]
  cases t.adjective with
  | none => exact t.baseName.notMem_text hmarks.1
  | some x =>
    simp [marked, hstars, hmarks.2.2, x.notMem_text hmarks.1, t.baseName.notMem_text hmarks.1]

theorem notMem_text {c : Char} (hc : c ∈ [';', '\n']) : c ∉ t.text double := by
  have hmarks : isDigit c = false ∧ c ≠ '+' ∧ c ≠ '-' ∧ c ≠ '.' ∧ c ≠ ' ' := by
    simp only [List.mem_cons, List.not_mem_nil, or_false] at hc
    rcases hc with rfl | rfl <;> decide
  intro hmem
  rcases List.mem_append.mp hmem with h | h
  · rcases t.weight.mem_text h with h | h | h | h <;> simp_all
  · rcases List.mem_cons.mp h with h | h
    · exact hmarks.2.2.2.2 h
    · exact t.notMem_named double hc h

theorem trim_text : trim (t.text double) = t.text double := by
  have htext : t.text double = (t.weight.text ++ [' ']) ++ t.named double := by simp [text]
  refine trim_eq_self_iff.mpr ⟨fun c hc => ?_, fun c hc => ?_⟩
  · rw [text, List.head?_append_of_ne_nil _ t.weight.text_ne_nil] at hc
    exact t.weight.isBlank_of_mem_text (List.mem_of_mem_head? hc)
  · rw [htext, List.getLast?_append_of_ne_nil _ (t.named_ne_nil double)] at hc
    exact (trim_eq_self_iff.mp (t.trim_named double)).2 c hc

/-- A target is read as it was written, in the spelling that it was written in. -/
theorem ofRaw_text : Target.ofRaw (String.ofList (t.text double)) =
    { t.target with displayName := String.ofList (t.named double) } := by
  have hweight := t.splitWeight_text (t.notMem_named double (by decide))
    (t.named_ne_nil double) (trim_eq_self_iff.mp (t.trim_named double)).1
  have hnamed : trimmed (t.named double) = String.ofList (t.named double) :=
    congrArg String.ofList (t.trim_named double)
  rw [Target.ofRaw, String.toList_ofList, trimmed, t.trim_text, text, hweight, hnamed]
  dsimp only
  rw [splitAdjective_named]
  simp only [target]

end TargetText

/-! ### The line -/

/-- Blanks before the first target do not matter. -/
theorem splitTargets_trimLeft (cs : List Char) : splitTargets (trimLeft cs) = splitTargets cs := by
  induction cs with
  | nil => rfl
  | cons c rest ih =>
    by_cases hc : isBlank c = true
    · have hmark : (c == ';') = false :=
        beq_eq_false_iff_ne.mpr (ne_of_isBlank hc (by decide)).symm
      have hpieces : ((c :: rest).splitOn ';').map trimmed = (rest.splitOn ';').map trimmed := by
        rw [List.splitOn_cons_eq_if_modifyHead, hmark]
        cases rest.splitOn ';' with
        | nil => rfl
        | cons first more =>
          have hfirst : trim (c :: first) = trim first :=
            trim_all_append (w := [c]) (by simpa using hc) first
          simp [trimmed, hfirst]
      rw [trimLeft, List.dropWhile_cons_of_pos hc, ← trimLeft, ih, splitTargets, splitTargets,
        hpieces]
    · rw [trimLeft, List.dropWhile_cons_of_neg hc]

theorem splitTargets_flatMap (targets : List TargetText) (double : Bool) :
    splitTargets (targets.flatMap fun t => ' ' :: (t.text double ++ [';'])) =
      targets.map fun t => String.ofList (t.text double) := by
  induction targets with
  | nil => rfl
  | cons t rest ih =>
    have hmark : ∀ c ∈ ' ' :: t.text double, (c == ';') = false := by
      intro c hc
      rw [beq_eq_false_iff_ne]
      rintro rfl
      rcases List.mem_cons.mp hc with h | h
      · cases h
      · exact t.notMem_text double (by decide) h
    have hsplit : (' ' :: (t.text double ++ [';']) ++
          rest.flatMap fun t => ' ' :: (t.text double ++ [';'])).splitOn ';' =
        (' ' :: t.text double) ::
          (rest.flatMap fun t => ' ' :: (t.text double ++ [';'])).splitOn ';' := by
      have hcut := List.splitOnP_append_cons_of_forall_mem hmark ';' rfl
        (rest.flatMap fun t => ' ' :: (t.text double ++ [';']))
      simpa [List.splitOn_eq_splitOnP] using hcut
    have htrim : trimmed (' ' :: t.text double) = String.ofList (t.text double) :=
      congrArg String.ofList ((trim_space_cons _).trans (t.trim_text double))
    have hkeep : (String.ofList (t.text double)).isEmpty = false :=
      isEmpty_ofList (by simp [TargetText.text])
    rw [List.flatMap_cons, splitTargets, hsplit, List.map_cons, htrim,
      List.filter_cons_of_pos (by rw [hkeep]; rfl), List.map_cons, ← ih]
    rfl

namespace RelationText

/-- A relation line is read as its name and its targets in order. -/
theorem relationOfLine?_line (r : RelationText) (double : Bool) :
    relationOfLine? (String.ofList (r.line double)) =
      some (r.name.toString, r.targets.map fun t => String.ofList (t.text double)) := by
  let targets := r.targets.flatMap fun t => ' ' :: (t.text double ++ [';'])
  have hline : IsLine (trimLeft targets) := by
    refine IsLine.suffix (x := targets) (fun hmem => ?_) (List.dropWhile_suffix _)
    obtain ⟨t, -, ht⟩ := List.mem_flatMap.mp hmem
    have hnot := t.notMem_text double (c := '\n') (by decide)
    simp [hnot] at ht
  have hread : (targetsAtEnd? ('>' :: targets)).map splitTargets =
      some (r.targets.map fun t => String.ofList (t.text double)) := by
    have hmark : after? ['>'] ('>' :: targets) = some targets := after?_eq_some_iff.mpr rfl
    simp only [targetsAtEnd?, hmark, Option.bind_eq_bind, Option.bind_some, oneLine?_eq hline,
      Option.map_some, splitTargets_trimLeft]
    exact congrArg some (splitTargets_flatMap r.targets double)
  have hname : someBefore? inLine (fun x => (targetsAtEnd? x).map splitTargets)
      (r.name.text ++ '>' :: targets) =
        some (r.name.text, r.targets.map fun t => String.ofList (t.text double)) := by
    refine someBefore?_append r.name.ne_nil (r.name.all_inLine (by decide)) hread ?_
    -- no mark ends the name before its end
    intro s hne hs
    obtain ⟨c, more, rfl⟩ := List.exists_cons_of_ne_nil hne
    have hc : c ≠ '>' := r.name.ne_of_mem (hs.subset List.mem_cons_self) (by decide)
    have hnone : after? ['>'] (c :: more ++ '>' :: targets) = none :=
      after?_eq_none (forall_mem_head?_cons.mpr hc) []
    rw [targetsAtEnd?, hnone]
    rfl
  have hopening : after? ['<'] (trimLeft (r.line double)) = some (r.name.text ++ '>' :: targets) :=
    after?_eq_some_iff.mpr rfl
  rw [relationOfLine?_eq, String.toList_ofList, relationParts?, hopening, Option.bind_some, hname,
    Option.map_some, r.name.trimmed_text]

end RelationText

/-! ### Headings of the same spelling -/

theorem targetMarks_subset : headingMarks ⊆ targetMarks := by
  decide

/-- The heading of a target: its adjective and its base name alone. -/
def TargetText.headingText (t : TargetText) : HeadingText where
  quantifier := none
  adjective := t.adjective.map (Phrase.weaken · targetMarks_subset)
  baseName := t.baseName.weaken targetMarks_subset
  role := none

theorem TargetText.ofLine_heading (t : TargetText) (defaultRole : String) :
    let heading := Heading.ofLine ("# " ++ String.ofList (t.named true)) defaultRole
    heading.nodeId = t.target.nodeId ∧ heading.displayName = t.target.surface := by
  have hadjective : t.headingText.parts.adjective.map trimmed =
      t.adjective.map Phrase.toString := by
    rw [HeadingText.parts, headingText, Option.map_map, Option.map_map, Phrase.trimmed_comp_text]
    rfl
  have hline : "# " ++ String.ofList (t.named true) = String.ofList t.headingText.line := by
    have hmarked : marked ['*', '*'] t.headingText.adjective t.baseName.text = t.named true := by
      unfold headingText named
      cases t.adjective <;> rfl
    rw [HeadingText.line, ← hmarked]
    apply String.toList_inj.mp
    simp [headingText, roleText, marked, Phrase.weaken]
  rw [hline, Heading.ofLine, String.toList_ofList, HeadingText.withInlineRole_line]
  dsimp only
  rw [hadjective]
  exact ⟨rfl, rfl⟩

/-! ### What is read -/

/-- A target is read as it was written, in the spelling that it was written in, and a heading of
the same spelling names the same node. The weight is the floating-point number that is nearest to
what was written, and has its value exactly if there is one of this value. -/
structure TargetText.IsRead (t : TargetText) : Prop where
  target : ∀ double, Target.ofRaw (String.ofList (t.text double)) =
    { t.target with displayName := String.ofList (t.named double) }
  nearest : ∃ x, t.target.weight = .ofWhole x ∧ x.IsNearest t.value
  exact : t.target.weight.fraction? = some t.value ↔
    ∃ x, (Number.float x).fraction? = some t.value
  heading : ∀ defaultRole,
    let heading := Heading.ofLine ("# " ++ String.ofList (t.named true)) defaultRole
    heading.nodeId = t.target.nodeId ∧ heading.displayName = t.target.surface

theorem TargetText.isRead_text (t : TargetText) : t.IsRead := by
  have hnearest : (Number.Binary64.ofRatio false t.weight.decimal.digits
      (10 ^ t.weight.places.length)).IsNearest t.value := by
    rw [value]
    exact Number.Binary64.isNearest_ofRatio _ (Nat.pow_pos (by decide))
  have hweight : t.target.weight = .ofWhole
      (.ofRatio false t.weight.decimal.digits (10 ^ t.weight.places.length)) := by
    rw [TargetText.target]
  refine ⟨t.ofRaw_text, ⟨_, hweight, hnearest⟩, ?_, t.ofLine_heading⟩
  rw [hweight, Number.fraction?_ofWhole]
  exact Number.fraction?_eq_some_iff_of_isNearest hnearest

/-- A relation line is read as the name and the targets that it was written from. -/
structure RelationText.IsRead (r : RelationText) : Prop where
  line : ∀ double, relationOfLine? (String.ofList (r.line double)) =
    some (r.name.toString, r.targets.map fun t => String.ofList (t.text double))
  targets : ∀ t ∈ r.targets, t.IsRead

/-- **Relation lines are read as they were written**. -/
theorem RelationText.isRead (r : RelationText) : r.IsRead :=
  ⟨r.relationOfLine?_line, fun t _ => t.isRead_text⟩

example : relationOfLine? "<is part of> 2 **hot** water; 1.50 ice;" =
    some ("is part of", ["2 **hot** water", "1.50 ice"]) := by
  decide +kernel

/-- Above `2 ^ 53` a weight may be rounded. -/
theorem TargetText.not_forall_fraction?_weight : ¬∀ t : TargetText,
    (Target.ofRaw (String.ofList (t.text true))).weight.fraction? = some t.value := by
  let t : TargetText :=
    { weight := ⟨none, "9007199254740993".toList, [], nofun, by decide, by decide, by decide⟩
      adjective := none
      baseName := ⟨['b'], by decide, by decide, List.forall_mem_singleton.mpr (by decide)⟩
      sign_weight := rfl
      length_places_le := by decide }
  intro h
  have hread : (Target.ofRaw (String.ofList (t.text true))).weight = .int 9007199254740992 := by
    decide +kernel
  have hdigits : t.weight.decimal.digits = 9007199254740993 := by decide +kernel
  have hvalue : t.value = 9007199254740993 := by
    rw [TargetText.value, hdigits]
    norm_num [t]
  have hexact := h t
  rw [hread, hvalue, Number.fraction?, Option.some.injEq] at hexact
  norm_num at hexact

end NoteGraph.Language
