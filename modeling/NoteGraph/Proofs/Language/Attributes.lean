import NoteGraph.Proofs.Language.Headings
import NoteGraph.Proofs.Language.Trailing

/-!
# Attribute lines as they are written

An attribute line is written with a name, a colon and a value, behind which a unit, a quantifier of
the unit, an adverb and a modality may stand between marks of their kinds. Each of these is taken
out of what the one before it leaves, so that the value comes to be followed by blanks alone. If no
part has a mark, the line is read as the parts that it was written from, with or without the word
`has` in front (`AttributeLine.ofLine?_written`).
-/

namespace NoteGraph.Language

open Text

/-! ### What is written -/

/-- The marks around the parts of a value, its end and the end of its line. -/
def valueMarks : List Char := ['*', '+', '[', ']', ';', '\n']

/-- An attribute line as it is written. -/
structure AttributeText where
  name : Phrase [':', '<', '\n']
  value : Phrase valueMarks
  unit : Option (Phrase valueMarks)
  quantifier : Option (Phrase valueMarks)
  adverb : Option (Phrase valueMarks)
  modality : Option (Phrase valueMarks)
  /-- A name does not start with the word `has` before a blank. -/
  head?_name : ∀ rest, after? hasWord name.text = some rest → ∀ c ∈ rest.head?, isBlank c = false
  /-- Only a unit has a quantifier. -/
  isSome_unit : quantifier.isSome → unit.isSome

/-- A part between its marks behind a value, if there is one. -/
def Marks.behind (m : Marks) : Option (Phrase valueMarks) → List Char
  | none => []
  | some x => ' ' :: (m.opening ++ (x.text ++ m.closing))

namespace AttributeText

variable (t : AttributeText)

/-- The adverb and the modality as they are written. -/
def qualifiers : List Char := plusMarks.behind t.adverb ++ bracketMarks.behind t.modality

/-- All that is written behind the value. -/
def parts : List Char :=
  starMarks.behind t.unit ++ (starMarks.behind t.quantifier ++ t.qualifiers)

/-- What is written before the colon. -/
def front (has : Bool) : List Char := (if has then hasWord ++ [' '] else []) ++ t.name.text

/-- The line of an attribute, with or without the word `has`. -/
def line (has : Bool) : List Char :=
  t.front has ++ ':' :: ' ' :: (t.value.text ++ t.parts ++ [';'])

/-- What an attribute line says. -/
def attributeLine : AttributeLine where
  name := t.name.toString
  value := t.value.toString
  unit := t.unit.map Phrase.toString
  quantifier := t.quantifier.map Phrase.toString
  adverb := t.adverb.map Phrase.toString
  modality := t.modality.map Phrase.toString

end AttributeText

/-! ### Parts behind a value -/

/-- Marks of a kind that no value has, with the first character of the opening one. -/
structure Marks.Suits (m : Marks) (first : Char) : Prop where
  opening : m.opening.head? = some first
  closing : m.closing.head? = some m.barred
  first_mem : first ∈ valueMarks
  barred_mem : m.barred ∈ valueMarks
  shown : (m.opening ++ m.closing).any isBlank = false

theorem suits_star : starMarks.Suits '*' := ⟨rfl, rfl, by decide, by decide, rfl⟩

theorem suits_plus : plusMarks.Suits '+' := ⟨rfl, rfl, by decide, by decide, rfl⟩

theorem suits_bracket : bracketMarks.Suits '[' := ⟨rfl, rfl, by decide, by decide, rfl⟩

/-- A text that does not end with a blank. -/
def EndsShown (cs : List Char) : Prop := ∀ c ∈ cs.getLast?, isBlank c = false

theorem EndsShown.append {x rest : List Char} (hx : EndsShown x) (hrest : EndsShown rest) :
    EndsShown (x ++ rest) := by
  by_cases hnil : rest = []
  · rwa [hnil, List.append_nil]
  · rwa [EndsShown, List.getLast?_append_of_ne_nil _ hnil]

theorem Marks.notMem_behind {m : Marks} {c : Char} (hc : c ∈ valueMarks)
    (hmarks : c ∉ m.opening ++ m.closing) (x : Option (Phrase valueMarks)) : c ∉ m.behind x := by
  obtain ⟨hopening, hclosing⟩ := not_or.mp (mt List.mem_append.mpr hmarks)
  have hspace : c ≠ ' ' := by
    rintro rfl
    exact absurd hc (by decide)
  cases x with
  | none => exact List.not_mem_nil
  | some x => simp [behind, hspace, hopening, x.notMem_text hc, hclosing]

namespace Marks.Suits

variable {m : Marks} {first : Char} (h : m.Suits first)
include h

theorem isBlank_of_mem {c : Char} (hc : c ∈ m.opening ++ m.closing) : isBlank c = false :=
  eq_false_of_ne_true (List.any_eq_false.mp h.shown c hc)

theorem endsShown_behind (x : Option (Phrase valueMarks)) : EndsShown (m.behind x) := by
  cases x with
  | none => exact fun _ hc => nomatch hc
  | some x =>
    obtain ⟨more, hclosing⟩ := List.head?_eq_some_iff.mp h.closing
    have hne : m.closing ≠ [] := hclosing ▸ List.cons_ne_nil _ _
    have hbehind : m.behind (some x) = ' ' :: (m.opening ++ x.text) ++ m.closing := by
      simp [behind]
    rw [EndsShown, hbehind, List.getLast?_append_of_ne_nil _ hne]
    exact fun c hc => h.isBlank_of_mem (List.mem_append_right _ (List.mem_of_mem_getLast? hc))

end Marks.Suits

section Stages

variable (value : Phrase valueMarks) {w rest : List Char}

/-- What stands behind a value is kept when a text is trimmed, and blanks alone are not. -/
theorem exists_trim_behind (hw : w.all isBlank = true) (hrest : EndsShown rest) :
    ∃ w', w'.all isBlank = true ∧
      trim (value.text ++ (w ++ rest)) = value.text ++ (w' ++ rest) := by
  by_cases hnil : rest = []
  · refine ⟨[], rfl, ?_⟩
    rw [hnil, List.append_nil, trim_append_of_all _ hw, value.trim_text, List.append_nil,
      List.append_nil]
  · refine ⟨w, hw, trim_eq_self_iff.mpr ⟨value.isBlank_of_head? _, ?_⟩⟩
    rw [← List.append_assoc, List.getLast?_append_of_ne_nil _ hnil]
    exact hrest

/-- A stage takes out the part of its marks behind a value, and leaves what is behind this part
after the value and some blanks. -/
theorem Marks.Suits.extract_behind {m : Marks} {first : Char} (h : m.Suits first)
    (x : Option (Phrase valueMarks)) (hw : w.all isBlank = true) (hrest : EndsShown rest)
    (hnone : x = none → first ∉ rest) :
    ∃ w', w'.all isBlank = true ∧
      m.extract (String.ofList (value.text ++ (w ++ (m.behind x ++ rest)))) =
        (x.map Phrase.toString, String.ofList (value.text ++ (w' ++ rest))) := by
  obtain ⟨more, hopening⟩ := List.head?_eq_some_iff.mp h.opening
  have hfirst : isBlank first = false := h.isBlank_of_mem (by simp [hopening])
  have hblank : ∀ {v : List Char}, v.all isBlank = true → first ∉ v := fun hv hmem => by
    rw [List.all_eq_true.mp hv first hmem] at hfirst
    cases hfirst
  rw [Marks.extract, String.toList_ofList, Marks.find?]
  cases x with
  | none =>
    have hmem : first ∉ value.text ++ (w ++ rest) := by
      simp [value.notMem_text h.first_mem, hblank hw, hnone rfl]
    refine ⟨w, hw, ?_⟩
    rw [Marks.behind, List.nil_append, Marks.findAfter?_eq_none hopening hmem []]
    rfl
  | some x =>
    have hspace : (w ++ [' ']).all isBlank = true := by
      rw [List.all_append, hw]
      rfl
    have hfront : first ∉ value.text ++ (w ++ [' ']) := by
      simp only [List.mem_append, not_or]
      exact ⟨value.notMem_text h.first_mem, hblank hw, hblank rfl⟩
    have htext : value.text ++ (w ++ (m.behind (some x) ++ rest)) =
        value.text ++ (w ++ [' ']) ++ (m.opening ++ (x.text ++ (m.closing ++ rest))) := by
      simp [Marks.behind]
    obtain ⟨w', hw', htrim⟩ := exists_trim_behind value hspace hrest
    have hremainder : trimmed (value.text ++ (w ++ [' ']) ++ rest) =
        String.ofList (value.text ++ (w' ++ rest)) := by
      rw [trimmed, List.append_assoc, htrim]
    refine ⟨w', hw', ?_⟩
    rw [htext, Marks.findAfter?_written h.closing hopening hfront x.ne_nil
      (x.notMem_text h.barred_mem) [], Option.map_some, ← x.trimmed_text, ← hremainder]
    rfl

end Stages

/-! ### Attribute lines -/

namespace AttributeText

variable (t : AttributeText) (has : Bool)

theorem endsShown_qualifiers : EndsShown t.qualifiers :=
  (suits_plus.endsShown_behind _).append (suits_bracket.endsShown_behind _)

theorem trim_value_parts : trim (t.value.text ++ t.parts) = t.value.text ++ t.parts := by
  have hparts : EndsShown t.parts := (suits_star.endsShown_behind _).append
    ((suits_star.endsShown_behind _).append t.endsShown_qualifiers)
  have hvalue : EndsShown t.value.text := (trim_eq_self_iff.mp t.value.trim_text).2
  exact trim_eq_self_iff.mpr ⟨t.value.isBlank_of_head? _, hvalue.append hparts⟩

/-- What stands before the colon is read as the name. -/
theorem attributeName?_front : attributeName? (t.front has) = some t.name.text := by
  have hhead := t.name.isBlank_of_head? []
  rw [List.append_nil] at hhead
  cases has with
  | true =>
    have hword : after? hasWord (trimLeft (t.front true)) = some ([' '] ++ t.name.text) :=
      after?_eq_some_iff.mpr rfl
    have hspace : [' '].all isBlank = true := rfl
    obtain ⟨hblanks, hname⟩ := takeWhile_append_stop hspace hhead
    rw [attributeName?, hword]
    dsimp only
    rw [hblanks, hname, t.name.trim_text, List.isEmpty_eq_false_iff.mpr t.name.ne_nil]
    rfl
  | false =>
    have hfront : t.front false = t.name.text := rfl
    have htrim : trimLeft t.name.text = t.name.text := dropWhile_of_head? hhead
    rw [hfront, attributeName?, htrim]
    cases hword : after? hasWord t.name.text with
    | none => simp [t.name.ne_nil, t.name.trim_text]
    | some rest =>
      have hblanks := takeWhile_of_head? (t.head?_name rest hword)
      simp [hblanks, t.name.ne_nil, t.name.trim_text]

/-- An attribute line is cut at its colon. -/
theorem attributeParts?_line :
    attributeParts? (t.line has) = some (t.name.text, t.value.text ++ t.parts) := by
  have hfront : (t.front has).all (fun c => c != ':' && c != '<') = true := by
    have hname : t.name.text.all (fun c => c != ':' && c != '<') = true := by
      simp only [List.all_eq_true, Bool.and_eq_true, bne_iff_ne]
      exact fun c hc => ⟨t.name.ne_of_mem hc (by decide), t.name.ne_of_mem hc (by decide)⟩
    cases has <;> simp [front, hname, hasWord]
  have hvalue : (' ' :: (t.value.text ++ t.parts)).all (· != ';') = true := by
    have hnot : ∀ m ∈ [starMarks, plusMarks, bracketMarks], ∀ x, ';' ∉ m.behind x :=
      fun m hm => Marks.notMem_behind (by decide) (by revert m; decide)
    simp only [List.mem_cons, List.not_mem_nil, or_false, forall_eq_or_imp, forall_eq] at hnot
    rw [List.all_eq_true]
    rintro c hc
    rw [bne_iff_ne]
    rintro rfl
    have hsemicolon : ';' ∉ t.value.text := t.value.notMem_text (by decide)
    simp [parts, qualifiers, hsemicolon, hnot] at hc
  have hstop : ∀ c ∈ (':' :: ' ' :: (t.value.text ++ t.parts ++ [';'])).head?,
      (c != ':' && c != '<') = false := forall_mem_head?_cons.mpr rfl
  obtain ⟨htake, hdrop⟩ := takeWhile_append_stop hfront hstop
  have hend : ∀ c ∈ [';'].head?, (c != ';') = false := forall_mem_head?_cons.mpr rfl
  obtain ⟨hpart, -⟩ := takeWhile_append_stop hvalue hend
  have hcolon : after? [':'] (':' :: ' ' :: (t.value.text ++ t.parts ++ [';'])) =
      some (' ' :: (t.value.text ++ t.parts) ++ [';']) := after?_eq_some_iff.mpr rfl
  rw [attributeParts?_eq, line]
  dsimp only
  rw [htake, hdrop, attributeAfter?, hcolon, Option.bind_some, t.attributeName?_front,
    Option.bind_some, value?, hpart, trim_space_cons, t.trim_value_parts]
  rfl

theorem star_notMem_qualifiers : '*' ∉ t.qualifiers := fun hmem =>
  (List.mem_append.mp hmem).elim (Marks.notMem_behind (by decide) (by decide) _)
    (Marks.notMem_behind (by decide) (by decide) _)

theorem quantifier_eq_none (hunit : t.unit = none) : t.quantifier = none := by
  by_contra hsome
  have hisSome := t.isSome_unit (Option.isSome_iff_ne_none.mpr hsome)
  rw [hunit] at hisSome
  cases hisSome

/-- Without a unit there is no quantifier that could be taken for it. -/
theorem star_notMem_of_unit (hunit : t.unit = none) :
    '*' ∉ starMarks.behind t.quantifier ++ t.qualifiers := by
  rw [t.quantifier_eq_none hunit]
  exact t.star_notMem_qualifiers

/-- The quantifier is taken out if there is a unit, and nothing is taken out if there is none. -/
theorem exists_quantifier {w : List Char} (hw : w.all isBlank = true) :
    ∃ w', w'.all isBlank = true ∧
      let rest := String.ofList
        (t.value.text ++ (w ++ (starMarks.behind t.quantifier ++ t.qualifiers)))
      (if (t.unit.map Phrase.toString).isSome then extractQuantifier rest else (none, rest)) =
        (t.quantifier.map Phrase.toString,
          String.ofList (t.value.text ++ (w' ++ t.qualifiers))) := by
  cases hunit : t.unit with
  | none =>
    rw [t.quantifier_eq_none hunit]
    exact ⟨w, hw, rfl⟩
  | some unit =>
    exact suits_star.extract_behind t.value t.quantifier hw t.endsShown_qualifiers
      fun _ => t.star_notMem_qualifiers

end AttributeText

/-- **Attribute lines are read as they were written**: a line, with or without the word `has`, says
the parts that it was written from. -/
theorem AttributeLine.ofLine?_written (t : AttributeText) (has : Bool) :
    AttributeLine.ofLine? (String.ofList (t.line has)) = some t.attributeLine := by
  -- Each stage starts with the value, some blanks and the parts that are still to be taken out.
  have hstart : ([] : List Char).all isBlank = true := rfl
  have hdone : EndsShown [] := fun _ hc => nomatch hc
  obtain ⟨w₁, hw₁, (hunit : extractUnit (String.ofList (t.value.text ++ t.parts)) = _)⟩ :=
    suits_star.extract_behind t.value t.unit hstart
      ((suits_star.endsShown_behind t.quantifier).append t.endsShown_qualifiers)
      t.star_notMem_of_unit
  obtain ⟨w₂, hw₂, hquantifier⟩ := t.exists_quantifier hw₁
  obtain ⟨w₃, hw₃, (hadverb : extractAdverb (String.ofList
      (t.value.text ++ (w₂ ++ t.qualifiers))) = _)⟩ :=
    suits_plus.extract_behind t.value t.adverb hw₂ (suits_bracket.endsShown_behind t.modality)
      fun _ => Marks.notMem_behind (by decide) (by decide) t.modality
  obtain ⟨w₄, hw₄, hmodality⟩ := suits_bracket.extract_behind t.value t.modality hw₃ hdone
    fun _ => List.not_mem_nil
  rw [List.append_nil, List.append_nil] at hmodality
  have hvalue : trimmed (t.value.text ++ w₄) = t.value.toString := by
    rw [trimmed, trim_append_of_all _ hw₄, t.value.trim_text, Phrase.toString]
  rw [AttributeLine.ofLine?, String.toList_ofList, t.attributeParts?_line, Option.bind_eq_bind,
    Option.bind_some]
  simp only [hunit, hquantifier, hadverb, extractModality, hmodality, String.toList_ofList, hvalue]
  rfl

/-- An attribute line with all parts. -/
def AttributeText.boilingPoint : AttributeText where
  name := .ofString "boiling point" (by decide)
  value := .ofString "100" (by decide)
  unit := some (.ofString "celsius" (by decide))
  quantifier := some (.ofString "some" (by decide))
  adverb := some (.ofString "usually" (by decide))
  modality := some (.ofString "could" (by decide))
  head?_name := nofun
  isSome_unit _ := rfl

theorem AttributeLine.ofLine?_boilingPoint :
    AttributeLine.ofLine? "has boiling point: 100 *celsius* *some* ++usually++ [could];" =
      some ⟨"boiling point", "100", some "celsius", some "some", some "usually",
        some "could"⟩ := by
  have hline : "has boiling point: 100 *celsius* *some* ++usually++ [could];" =
      String.ofList (AttributeText.boilingPoint.line true) := by
    decide +kernel
  rw [hline, AttributeLine.ofLine?_written]
  decide +kernel

end NoteGraph.Language
