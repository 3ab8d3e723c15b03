import NoteGraph.Proofs.Language.Relations

/-!
# What remains of a text

The parts of a value and of a target are taken out of it one after the other, and each time the
remainder is read on. A part is taken out if there is one, and nothing else is lost with a marked
span or a weight: what remains is the text before it and the text after it. With an adjective the
text before it is lost, so a target is taken for the name alone that stands after its adjective
(`keepsText`).
-/

namespace NoteGraph.Language

open Text
open NoteGraph.Ledger (PlainFraction)

/-! ### Texts without a part -/

/-- What remains of a text cut at a part is the text before the part and the text after it, up to
the blanks at the ends of these pieces. -/
def Cut.Leaves (cut : Cut) (remainder : String) : Prop :=
  ∃ before after, trim before = trim cut.before ∧ trim after = trim cut.after ∧
    trim remainder.toList = trim (before ++ after)

/-- Nothing of a text is lost when a part is taken out of it: all of it remains if there is no
part, and otherwise what stands before and after a part. -/
def LosesNothing (AtPart : Cut → Prop) (text : String) : Option String × String → Prop
  | (none, remainder) => remainder = text ∧ ∀ cut, ¬AtPart cut
  | (some part, remainder) =>
    ∃ cut, AtPart cut ∧ trimmed cut.inside = part ∧ cut.Leaves remainder

/-- Only what stands before a part is lost when the part is taken out of a text, so nothing is
lost exactly if this is blank. -/
def LosesFront (AtPart : Cut → Prop) (text : String) : Option String × String → Prop
  | (none, remainder) => remainder = text ∧ ∀ cut, ¬AtPart cut
  | (some part, remainder) =>
    ∃ cut, AtPart cut ∧ trimmed cut.inside = part ∧ remainder = trimmed cut.after ∧
      (cut.Leaves remainder ↔ cut.before.all isBlank = true)

/-! ### Characters that show -/

/-- The characters of a text that are not blank. -/
def visible (cs : List Char) : List Char := cs.filter fun c => !isBlank c

theorem visible_append (x y : List Char) : visible (x ++ y) = visible x ++ visible y :=
  List.filter_append ..

theorem visible_eq_nil_iff {cs : List Char} : visible cs = [] ↔ cs.all isBlank = true := by
  simp [visible]

theorem visible_trim (cs : List Char) : visible (trim cs) = visible cs := by
  obtain ⟨v, w, hv, hw, heq⟩ := exists_append_trim_append cs
  conv_rhs => rw [heq, visible_append, visible_append, visible_eq_nil_iff.mpr hv,
    visible_eq_nil_iff.mpr hw, List.nil_append, List.append_nil]

namespace Cut

variable {cut : Cut}

theorem Leaves.visible_eq {remainder : String} (h : cut.Leaves remainder) :
    visible remainder.toList = visible cut.before ++ visible cut.after := by
  obtain ⟨before, after, hbefore, hafter, hremainder⟩ := h
  rw [← visible_trim, hremainder, visible_trim, visible_append, ← visible_trim before, hbefore,
    visible_trim, ← visible_trim after, hafter, visible_trim]

theorem leaves_trimmed (cut : Cut) : cut.Leaves (trimmed (cut.before ++ cut.after)) := by
  refine ⟨cut.before, cut.after, rfl, rfl, ?_⟩
  rw [trimmed, String.toList_ofList, trim_trim]

/-- The text after a span is all that remains exactly if the text before it is blank. -/
theorem leaves_after_iff (cut : Cut) :
    cut.Leaves (trimmed cut.after) ↔ cut.before.all isBlank = true := by
  constructor
  · intro h
    have hvisible := h.visible_eq
    rw [trimmed, String.toList_ofList, visible_trim] at hvisible
    exact visible_eq_nil_iff.mp (List.self_eq_append_left.mp hvisible)
  · intro h
    have hall := cut.leaves_trimmed
    rwa [trimmed, trim_all_append h] at hall

end Cut

/-! ### Marked spans -/

theorem Marks.losesNothing_extract {m : Marks} (hclosing : m.closing.head? = some m.barred)
    (text : String) : LosesNothing (Cut.AtSpan m text.toList) text (m.extract text) := by
  rw [extract]
  cases hfind : m.find? text.toList with
  | none => exact ⟨rfl, (find?_eq_none_iff hclosing).mp hfind⟩
  | some cut => exact ⟨cut, atSpan_of_findAfter? hclosing hfind, rfl, cut.leaves_trimmed⟩

/-! ### Names behind blanks -/

/-- A text that starts with a blank before something else. -/
def HasName (cs : List Char) : Prop :=
  ∃ blank name, cs = blank :: name ∧ isBlank blank = true ∧ name ≠ []

theorem hasName_cons_iff {c : Char} {rest : List Char} :
    HasName (c :: rest) ↔ isBlank c = true ∧ rest ≠ [] := by
  simp [HasName]

theorem HasName.ne_of_head? {cs : List Char} (h : HasName cs) : ∀ c ∈ cs.head?, c ≠ '*' := by
  obtain ⟨blank, name, rfl, hblank, -⟩ := h
  refine forall_mem_head?_cons.mpr ?_
  rintro rfl
  cases hblank

/-- All that follows its blanks is the name. -/
theorem lineAfterBlanks?_cases {cs : List Char} (hline : IsLine cs) :
    (lineAfterBlanks? cs = none ∧ ¬HasName cs) ∨
      ∃ name, lineAfterBlanks? cs = some name ∧ HasName cs ∧ trim name = trim cs := by
  cases cs with
  | nil => exact .inl ⟨rfl, fun ⟨_, _, hcs, _⟩ => nomatch hcs⟩
  | cons c rest =>
    have hname := lineAfterBlanks?_cons hline
    rw [hasName_cons_iff]
    split_ifs at hname with h
    · obtain ⟨name, hsome, htrim⟩ := Option.map_eq_some_iff.mp hname
      have hblank : [c].all isBlank = true := by simpa using h.1
      refine .inr ⟨name, hsome, h, ?_⟩
      rw [String.ofList_inj.mp htrim, ← trim_all_append hblank rest]
      rfl
    · exact .inl ⟨Option.map_eq_none_iff.mp hname, h⟩

/-! ### Weights -/

/-- A cut of a text behind a weight in front. -/
structure Cut.AtWeight (text : List Char) (cut : Cut) : Prop where
  before_eq_nil : cut.before = []
  text_eq : text = cut.inside ++ cut.after
  inside_eq : ∃ weight : PlainFraction, weight.sign = none ∧ weight.places.length ≤ 2 ∧
    cut.inside = weight.text
  after : HasName cut.after

theorem exists_weightPlaces (cs : List Char) :
    ∃ places after, weightPlaces cs = PlainFraction.pointed places ∧
      cs = PlainFraction.pointed places ++ after ∧ places.all isDigit = true ∧
        places.length ≤ 2 := by
  unfold weightPlaces
  split
  · rename_i rest
    have hprefix : (rest.takeWhile isDigit).take 2 <+: rest :=
      (List.take_prefix 2 _).trans (List.takeWhile_prefix _)
    obtain ⟨after, hafter⟩ := hprefix
    generalize hdigits : (rest.takeWhile isDigit).take 2 = digits at hafter
    have hall : digits.all isDigit = true := List.all_eq_true.mpr fun c hc =>
      List.mem_takeWhile_imp (List.mem_of_mem_take (hdigits ▸ hc))
    have hlength : digits.length ≤ 2 := hdigits ▸ List.length_take_le ..
    by_cases hnil : digits = []
    · exact ⟨[], _, by simp [hnil, PlainFraction.pointed], rfl, rfl, Nat.zero_le 2⟩
    · have hpointed : PlainFraction.pointed digits = '.' :: digits := by
        simp [PlainFraction.pointed, hnil]
      refine ⟨digits, after, ?_, ?_, hall, hlength⟩
      · simp [hpointed, hnil]
      · rw [hpointed, List.cons_append, hafter]
  · exact ⟨[], cs, rfl, rfl, rfl, Nat.zero_le 2⟩

theorem atWeight_of_weightNumeral? {target numeral name : List Char} (hline : IsLine target)
    (h : weightNumeral? target = some (numeral, name)) :
    ∃ after, Cut.AtWeight target ⟨[], numeral, after⟩ ∧ trim name = trim after := by
  simp only [weightNumeral?, Option.bind_eq_bind, Option.bind_eq_some_iff, Prod.exists] at h
  obtain ⟨whole, rest, hrun, line, hname, hweight⟩ := h
  obtain ⟨rfl, rfl⟩ := Prod.mk.inj (Option.some.inj hweight)
  obtain ⟨rfl, hwhole, hne, -⟩ := run?_eq_some_iff.mp hrun
  obtain ⟨places, after, hplaces, rfl, hdigits, hshort⟩ := exists_weightPlaces rest
  rw [hplaces, List.drop_left] at hname
  rw [hplaces]
  have hafter : IsLine after :=
    hline.suffix ((List.suffix_append _ _).trans (List.suffix_append _ _))
  rcases lineAfterBlanks?_cases hafter with ⟨hnone, -⟩ | ⟨name, hsome, hhas, htrim⟩
  · rw [hnone] at hname
    cases hname
  · obtain rfl := Option.some.inj (hname.symm.trans hsome)
    have hsign : ∀ c ∈ (none : Option Char), c = '+' ∨ c = '-' := by simp
    let weight : PlainFraction := ⟨none, whole, places, hsign, hne, hwhole, hdigits⟩
    exact ⟨after, ⟨rfl, (List.append_assoc ..).symm, ⟨weight, rfl, hshort, rfl⟩, hhas⟩, htrim⟩

theorem weightNumeral?_ne_none {target : List Char} {cut : Cut} (hline : IsLine target)
    (h : cut.AtWeight target) : weightNumeral? target ≠ none := by
  obtain ⟨-, rfl, ⟨weight, hsign, hshort, hinside⟩, hhas⟩ := h
  have hafter : IsLine cut.after := hline.suffix (List.suffix_append _ _)
  rcases lineAfterBlanks?_cases hafter with ⟨-, hnot⟩ | ⟨name, hname, -⟩
  · exact absurd hhas hnot
  · obtain ⟨blank, rest, hcons, hblank, -⟩ := hhas
    rw [hcons] at hname
    rw [hinside, hcons, weightNumeral?_append hblank hsign hshort, hname]
    exact Option.some_ne_none _

theorem ofNumeral_text (weight : PlainFraction) :
    Number.ofNumeral (String.ofList weight.text) = .ok (.ofWhole weight.decimal.toBinary64) := by
  simp [Number.ofNumeral, Number.readNumeral, weight.readNumeral?_text, Except.map]

/-- The numeral of a weight stands in front of what remains. -/
theorem losesNothing_splitWeight {text : String} (hline : IsLine text.toList) :
    ∃ numeral : Option String,
      LosesNothing (Cut.AtWeight text.toList) text (numeral, (splitWeight text).2) ∧
        match numeral with
        | none => (splitWeight text).1 = .int 1
        | some digits => Number.ofNumeral digits = .ok (splitWeight text).1 := by
  rw [splitWeight]
  cases hread : weightNumeral? text.toList with
  | none =>
    exact ⟨none, ⟨rfl, fun cut hcut => weightNumeral?_ne_none hline hcut hread⟩, rfl⟩
  | some span =>
    obtain ⟨digits, name⟩ := span
    obtain ⟨after, hcut, hname⟩ := atWeight_of_weightNumeral? hline hread
    obtain ⟨weight, -, -, rfl⟩ := hcut.inside_eq
    have hinside : trimmed weight.text = String.ofList weight.text :=
      congrArg String.ofList (trim_of_forall fun _ => weight.isBlank_of_mem_text)
    have hremainder : trimmed name = trimmed after := congrArg String.ofList hname
    have hnumber := ofNumeral_text weight
    dsimp only
    rw [hnumber]
    refine ⟨some (String.ofList weight.text), ⟨_, hcut, hinside, ?_⟩, hnumber⟩
    rw [hremainder]
    exact Cut.leaves_trimmed ⟨[], weight.text, after⟩

/-! ### Adjectives -/

/-- A cut of a text at an adjective: one or two stars are on each side. -/
structure Cut.AtAdjective (text : List Char) (cut : Cut) : Prop where
  text_eq : ∃ double double', text =
    cut.before ++ (stars double ++ (cut.inside ++ (stars double' ++ cut.after)))
  inside_ne_nil : cut.inside ≠ []
  notMem_inside : '*' ∉ cut.inside
  after : HasName cut.after

/-- A star may be followed by another one. -/
theorem exists_stars (rest : List Char) :
    ∃ double, '*' :: rest = stars double ++ (after? ['*'] rest).getD rest := by
  cases h : after? ['*'] rest with
  | none => exact ⟨false, rfl⟩
  | some more =>
    obtain rfl := after?_eq_some_iff.mp h
    exact ⟨true, rfl⟩

/-- All the stars in front of a text are taken for one mark. -/
theorem exists_after?_stars (double : Bool) {cs : List Char} (h : ∀ c ∈ cs.head?, c ≠ '*') :
    ∃ rest, after? ['*'] (stars double ++ cs) = some rest ∧
      (after? ['*'] rest).getD rest = cs := by
  cases double with
  | false => exact ⟨cs, after?_eq_some_iff.mpr rfl, by rw [after?_eq_none h []]; rfl⟩
  | true =>
    have hsecond : after? ['*'] ('*' :: cs) = some cs := after?_eq_some_iff.mpr rfl
    exact ⟨'*' :: cs, after?_eq_some_iff.mpr rfl, by rw [hsecond]; rfl⟩

/-- On a line the name behind an adjective is read as that behind a weight. -/
theorem map_find?_restsAfter {cs : List Char} (hline : IsLine cs) :
    ((restsAfter isBlank cs).find? fun rest => rest.head?.any inLine).map (·.takeWhile inLine) =
      (restsAfter isBlank cs).findSome? someLine? := by
  induction cs with
  | nil => rfl
  | cons c rest ih =>
    have hall : ∀ d ∈ c :: rest, inLine d = true := fun d hd =>
      bne_iff_ne.mpr fun heq => hline (heq ▸ hd)
    have hwhole := List.takeWhile_eq_self_iff.mpr hall
    have hlast : someLine? (c :: rest) = some (c :: rest) := by
      rw [someLine?_eq hline]
      rfl
    have hrest := ih (hline.suffix (List.suffix_cons c rest))
    rw [restsAfter_cons, List.find?_append, List.findSome?_append, Option.map_or,
      List.findSome?_singleton, hlast]
    split_ifs <;> simp [hrest, hwhole, hall c List.mem_cons_self]

theorem map_find?_restsAfterSome {cs : List Char} (hline : IsLine cs) :
    ((restsAfterSome isBlank cs).find? fun rest => rest.head?.any inLine).map
      (·.takeWhile inLine) = lineAfterBlanks? cs := by
  cases cs with
  | nil => rfl
  | cons c rest =>
    rw [lineAfterBlanks?, restsAfterSome]
    split_ifs
    · exact map_find?_restsAfter (hline.suffix (List.suffix_cons c rest))
    · rfl

theorem atAdjective_of_adjectiveHere? {cs adjective name : List Char} (hline : IsLine cs)
    (h : adjectiveHere? cs = some (adjective, name)) :
    ∃ after, Cut.AtAdjective cs ⟨[], adjective, after⟩ ∧ trim name = trim after := by
  simp only [adjectiveHere?, Option.bind_eq_bind, Option.bind_eq_some_iff, Prod.exists] at h
  obtain ⟨opened, hopening, inside, closed, hrun, behind, hclosing, rest, hrest, hparts⟩ := h
  obtain ⟨rfl, rfl⟩ := Prod.mk.inj (Option.some.inj hparts)
  obtain rfl := after?_eq_some_iff.mp hopening
  obtain rfl := after?_eq_some_iff.mp hclosing
  obtain ⟨hinside, hall, hne, -⟩ := run?_eq_some_iff.mp hrun
  obtain ⟨double, hstars⟩ := exists_stars opened
  obtain ⟨double', hstars'⟩ := exists_stars behind
  have hcs : ['*'] ++ opened =
      stars double ++ (inside ++ (stars double' ++ (after? ['*'] behind).getD behind)) := by
    rw [List.singleton_append, hstars, hinside, List.singleton_append, hstars']
  generalize (after? ['*'] behind).getD behind = after at hrest hcs
  have hafter : IsLine after := by
    refine hline.suffix ⟨stars double ++ (inside ++ stars double'), ?_⟩
    rw [hcs]
    simp only [List.append_assoc]
  have hname := map_find?_restsAfterSome hafter
  rw [hrest, Option.map_some] at hname
  rcases lineAfterBlanks?_cases hafter with ⟨hnone, -⟩ | ⟨name, hsome, hhas, htrim⟩
  · rw [hnone] at hname
    cases hname
  · obtain rfl := Option.some.inj (hname.trans hsome)
    have hstar : '*' ∉ inside := fun hmem => bne_iff_ne.mp (List.all_eq_true.mp hall _ hmem) rfl
    exact ⟨after, ⟨⟨double, double', hcs⟩, hne, hstar, hhas⟩, htrim⟩

theorem adjectiveHere?_ne_none {cs inside after : List Char} (hline : IsLine cs)
    (h : Cut.AtAdjective cs ⟨[], inside, after⟩) : adjectiveHere? cs ≠ none := by
  obtain ⟨⟨double, double', rfl⟩, hne, hstar, hhas⟩ := h
  dsimp only at hne hstar hhas
  have hhead : ∀ c ∈ (inside ++ (stars double' ++ after)).head?, c ≠ '*' := fun c hc heq => by
    rw [List.head?_append_of_ne_nil _ hne] at hc
    exact hstar (heq ▸ List.mem_of_mem_head? hc)
  have hall : inside.all (· != '*') = true :=
    List.all_eq_true.mpr fun c hc => bne_iff_ne.mpr fun heq => hstar (heq ▸ hc)
  have hstop : ∀ c ∈ (stars double' ++ after).head?, (c != '*') = false := by
    cases double' <;> exact forall_mem_head?_cons.mpr rfl
  obtain ⟨opened, hopening, hopened⟩ := exists_after?_stars double hhead
  obtain ⟨behind, hclosing, hbehind⟩ := exists_after?_stars double' hhas.ne_of_head?
  have hafter : IsLine after := hline.suffix ⟨stars double ++ (inside ++ stars double'), by simp⟩
  rcases lineAfterBlanks?_cases hafter with ⟨-, hnot⟩ | ⟨name, hname, -⟩
  · exact absurd hhas hnot
  · rw [← map_find?_restsAfterSome hafter] at hname
    obtain ⟨rest, hrest, -⟩ := Option.map_eq_some_iff.mp hname
    simp [adjectiveHere?, hopening, hopened, run?_append hne hall hstop, hclosing, hbehind, hrest]

theorem atAdjective_of_findAdjective? {cs adjective name : List Char} (hline : IsLine cs)
    (h : findAdjective? cs = some (adjective, name)) :
    ∃ before after, Cut.AtAdjective cs ⟨before, adjective, after⟩ ∧ trim name = trim after := by
  induction cs with
  | nil => cases h
  | cons c rest ih =>
    rw [findAdjective?] at h
    cases hhere : adjectiveHere? (c :: rest) with
    | some parts =>
      rw [hhere, Option.some_or, Option.some.injEq] at h
      subst h
      obtain ⟨after, hcut, hname⟩ := atAdjective_of_adjectiveHere? hline hhere
      exact ⟨[], after, hcut, hname⟩
    | none =>
      rw [hhere, Option.none_or] at h
      obtain ⟨before, after, ⟨⟨double, double', rfl⟩, hne, hstar, hhas⟩, hname⟩ :=
        ih (hline.suffix (List.suffix_cons c rest)) h
      exact ⟨c :: before, after, ⟨⟨double, double', rfl⟩, hne, hstar, hhas⟩, hname⟩

theorem findAdjective?_ne_none {cs : List Char} {cut : Cut} (hline : IsLine cs)
    (h : cut.AtAdjective cs) : findAdjective? cs ≠ none := by
  obtain ⟨before, inside, after⟩ := cut
  induction before generalizing cs with
  | nil =>
    have hhere := adjectiveHere?_ne_none hline h
    cases cs with
    | nil => exact absurd rfl hhere
    | cons c rest => simp [findAdjective?, hhere]
  | cons c before ih =>
    obtain ⟨⟨double, double', rfl⟩, hne, hstar, hhas⟩ := h
    have hrest := ih (hline.suffix (List.suffix_cons c _))
      ⟨⟨double, double', rfl⟩, hne, hstar, hhas⟩
    rw [List.cons_append, findAdjective?, Ne, Option.or_eq_none_iff]
    exact fun hnone => hrest hnone.2

theorem losesFront_splitAdjective {text : String} (hline : IsLine text.toList) :
    LosesFront (Cut.AtAdjective text.toList) text (splitAdjective text) := by
  rw [splitAdjective]
  cases hfind : findAdjective? text.toList with
  | none => exact ⟨rfl, fun cut hcut => findAdjective?_ne_none hline hcut hfind⟩
  | some parts =>
    obtain ⟨adjective, name⟩ := parts
    obtain ⟨before, after, hcut, hname⟩ := atAdjective_of_findAdjective? hline hfind
    have hremainder : trimmed name = trimmed after := congrArg String.ofList hname
    refine ⟨_, hcut, rfl, hremainder, ?_⟩
    rw [hremainder]
    exact Cut.leaves_after_iff ⟨before, adjective, after⟩

/-! ### All stages -/

/-- What the stages of reading keep of a text. -/
structure KeepsText (text : String) : Prop where
  unit : LosesNothing (Cut.AtSpan ⟨['*'], ['*'], '*'⟩ text.toList) text (extractUnit text)
  quantifier : LosesNothing (Cut.AtSpan ⟨['*'], ['*'], '*'⟩ text.toList) text
    (extractQuantifier text)
  adverb : LosesNothing (Cut.AtSpan ⟨['+', '+'], ['+', '+'], '+'⟩ text.toList) text
    (extractAdverb text)
  modality : LosesNothing (Cut.AtSpan ⟨['['], [']'], ']'⟩ text.toList) text (extractModality text)
  /-- A weight is the value of a numeral, and one if there is no numeral. -/
  weight : ∃ numeral : Option String,
    LosesNothing (Cut.AtWeight text.toList) text (numeral, (splitWeight text).2) ∧
      match numeral with
      | none => (splitWeight text).1 = .int 1
      | some digits => Number.ofNumeral digits = .ok (splitWeight text).1
  adjective : LosesFront (Cut.AtAdjective text.toList) text (splitAdjective text)

/-- **What remains of a line** when a part is taken out of it, if there is one: all but the part,
and for an adjective all but the part and the text before it. -/
theorem keepsText {text : String} (h : IsLine text.toList) : KeepsText text where
  unit := Marks.losesNothing_extract rfl text
  quantifier := Marks.losesNothing_extract rfl text
  adverb := Marks.losesNothing_extract rfl text
  modality := Marks.losesNothing_extract rfl text
  weight := losesNothing_splitWeight h
  adjective := losesFront_splitAdjective h

theorem keepsText_hot_water :
    IsLine "2.5 very *hot* water [often]".toList ∧ KeepsText "2.5 very *hot* water [often]" :=
  ⟨by decide, keepsText (by decide)⟩

/-- A word before an adjective is lost. -/
theorem not_losesNothing_splitAdjective :
    ¬LosesNothing (Cut.AtAdjective "very *hot* water".toList) "very *hot* water"
      (splitAdjective "very *hot* water") := by
  have hread : splitAdjective "very *hot* water" = (some "hot", "water") := by decide +kernel
  rw [hread]
  rintro ⟨cut, ⟨⟨double, double', htext⟩, -⟩, hpart, hleaves⟩
  -- the text shows 14 characters: 5 remain, 3 are taken out and at most 4 are marks
  have hmarks : ∀ double, (visible (stars double)).length ≤ 2 := by decide
  have hinside : visible cut.inside = "hot".toList := by
    have htrim : trim cut.inside = "hot".toList := by
      rw [← hpart, trimmed, String.toList_ofList]
    rw [← visible_trim, htrim]
    decide
  have hremainder : visible cut.before ++ visible cut.after = "water".toList := by
    rw [← hleaves.visible_eq]
    decide
  have hshown : (visible "very *hot* water".toList).length = 14 := by decide
  have hrest : (visible cut.before).length + (visible cut.after).length = 5 := by
    rw [← List.length_append, hremainder]
    rfl
  rw [htext] at hshown
  simp only [visible_append, List.length_append, hinside] at hshown
  have hhot : "hot".toList.length = 3 := rfl
  have hfirst := hmarks double
  have hsecond := hmarks double'
  omega

end NoteGraph.Language
