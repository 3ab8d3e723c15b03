import NoteGraph.Language.Heading
import NoteGraph.Proofs.Language.Spans

/-!
# Headings as they are written

A heading is written with a quantifier between stars, an adjective between double stars, a base
name and a role in brackets, and all but the base name may be left out. If no part has a mark, a
heading is read as the parts that it was written from (`Heading.ofLine_written`): the stars tell
a quantifier and an adjective apart, and a base name ends where nothing or only a role follows.
-/

namespace NoteGraph.Language

open Text

/-! ### What is written -/

/-- The marks of a heading and the end of its line. -/
def headingMarks : List Char := ['*', '[', ']', '\n']

/-- A heading as it is written. -/
structure HeadingText where
  quantifier : Option (Phrase headingMarks)
  adjective : Option (Phrase headingMarks)
  baseName : Phrase headingMarks
  role : Option (Phrase headingMarks)

/-- A phrase between marks, if there is one, in front of a text. -/
def marked {barred : List Char} (mark : List Char) (x : Option (Phrase barred))
    (rest : List Char) : List Char :=
  match x with
  | none => rest
  | some x => mark ++ (x.text ++ (mark ++ ' ' :: rest))

/-- A role in brackets behind a base name. -/
def roleText : Option (Phrase headingMarks) → List Char
  | none => []
  | some role => ' ' :: '[' :: (role.text ++ [']'])

namespace HeadingText

/-- The line of a heading. -/
def line (h : HeadingText) : List Char :=
  '#' :: ' ' :: marked ['*'] h.quantifier
    (marked ['*', '*'] h.adjective (h.baseName.text ++ roleText h.role))

/-- What a heading says of its node; its spelling is that of its adjective and its base name. -/
def heading (h : HeadingText) (defaultRole : String) : Heading where
  nodeId := nodeId h.baseName.toString (h.adjective.map Phrase.toString)
  baseName := h.baseName.toString
  displayName := String.ofList (marked ['*', '*'] h.adjective h.baseName.text)
  role := (h.role.map Phrase.toString).getD defaultRole
  adjective := h.adjective.map Phrase.toString
  quantifier := normalizeQuantifier (h.quantifier.map Phrase.toString)

end HeadingText

/-! ### The base name and its role -/

section BaseName

variable (base : Phrase headingMarks) (role : Option (Phrase headingMarks))

theorem readRole?_roleText : readRole? (roleText role) = some (role.map Phrase.text) := by
  cases role with
  | none => rfl
  | some role =>
    have hblank : trimLeft (roleText (some role)) = '[' :: (role.text ++ [']']) := rfl
    have hline : IsLine (role.text ++ [']']) := by
      simp [IsLine, role.notMem_text (m := '\n') (by decide)]
    have hend : roleAtEnd? (roleText (some role)) = some role.text := by
      simp [roleAtEnd?, hblank, after?, oneLine?_eq hline, role.ne_nil]
    rw [readRole?, hend]
    rfl

/-- No role starts inside of a base name. -/
theorem readRole?_eq_none {s : List Char} (hne : s ≠ []) (hs : s <:+ base.text)
    (rest : List Char) : readRole? (s ++ rest) = none := by
  have hopening : after? ['['] (trimLeft (s ++ rest)) = none :=
    after?_eq_none (fun c hc =>
      base.ne_of_mem (base.head?_trimLeft_append hne hs rest c hc) (by decide)) []
  have hend : atEnd (s ++ rest) = false := by
    obtain ⟨c, more, rfl⟩ := List.exists_cons_of_ne_nil hne
    have hc : c ≠ '\n' := base.ne_of_mem (hs.subset List.mem_cons_self) (by decide)
    simp [atEnd, hc]
  simp [readRole?, roleAtEnd?, hopening, hend]

theorem readBase?_append :
    readBase? (base.text ++ roleText role) = some (base.text, role.map Phrase.text) :=
  someBefore?_append base.ne_nil (base.all_inLine (by decide)) (readRole?_roleText role)
    fun _ hne hs => readRole?_eq_none base hne hs _

end BaseName

/-! ### Quantifiers and adjectives -/

section Marks

variable {rest : List Char}

/-- Without an adjective there is nothing to read one from. -/
theorem adjectiveReadings_eq_nil (h : ∀ c ∈ rest.head?, c ≠ '*') :
    adjectiveReadings rest = [] := by
  rw [adjectiveReadings, after?_eq_none h ['*']]

theorem adjectiveReadings_marked (x : Phrase headingMarks)
    (h : ∀ c ∈ rest.head?, isBlank c = false) :
    ∃ more, adjectiveReadings (marked ['*', '*'] (some x) rest) = (x.text, rest) :: more := by
  obtain ⟨more, hruns⟩ := runsBefore_append x.ne_nil (x.all_inLine (by decide))
    (x.notMem_text (m := '*') (by decide)) ['*'] (' ' :: rest)
  have hspace : isBlank ' ' = true := rfl
  have hskip : restsAfter isBlank (' ' :: rest) = [rest, ' ' :: rest] := by
    rw [restsAfter_cons, if_pos hspace, restsAfter_of_head? h]
    rfl
  have hmark : after? ['*', '*'] (marked ['*', '*'] (some x) rest) =
      some (x.text ++ (['*', '*'] ++ ' ' :: rest)) := after?_eq_some_iff.mpr rfl
  rw [adjectiveReadings, hmark]
  dsimp only
  rw [hruns, List.flatMap_cons, hskip]
  exact ⟨_, rfl⟩

/-- Double stars are not those of a quantifier. -/
theorem quantifierReadings_eq_nil {adjective : Option (Phrase headingMarks)}
    (h : ∀ c ∈ rest.head?, c ≠ '*') :
    quantifierReadings (marked ['*', '*'] adjective rest) = [] := by
  cases adjective with
  | none => rw [marked, quantifierReadings, Marks.spanHere?, starMarks, after?_eq_none h]; rfl
  | some x => rfl

theorem quantifierReadings_marked (x : Phrase headingMarks)
    (h : ∀ c ∈ rest.head?, isBlank c = false) :
    quantifierReadings (marked ['*'] (some x) rest) = [(x.text, rest)] := by
  have hstar : x.text.all (· != '*') = true :=
    List.all_eq_true.mpr fun c hc => bne_iff_ne.mpr (x.ne_of_mem hc (by decide))
  have hspan : starMarks.spanHere? (marked ['*'] (some x) rest) =
      some (x.text, ' ' :: rest) := by
    have hrun : run? (· != '*') (x.text ++ '*' :: ' ' :: rest) =
        some (x.text, '*' :: ' ' :: rest) :=
      run?_append x.ne_nil hstar (by simp)
    simp [Marks.spanHere?, starMarks, marked, after?, hrun]
  rw [quantifierReadings, hspan]
  simp [restsAfterSome_cons (rfl : isBlank ' ' = true) h]

end Marks

/-! ### Headings -/

namespace HeadingText

variable (h : HeadingText)

/-- The parts that a heading is written from. -/
def parts : HeadingParts :=
  ⟨h.quantifier.map Phrase.text, h.adjective.map Phrase.text, h.baseName.text,
    h.role.map Phrase.text⟩

/-- The line from its adjective on. -/
def named : List Char := marked ['*', '*'] h.adjective (h.baseName.text ++ roleText h.role)

theorem isBlank_of_head?_named : ∀ c ∈ h.named.head?, isBlank c = false := by
  unfold named
  cases h.adjective with
  | none => exact h.baseName.isBlank_of_head? _
  | some x => exact forall_mem_head?_cons.mpr rfl

theorem readAfterQuantifier?_named (quantifier : Option (List Char)) :
    readAfterQuantifier? quantifier h.named = some { h.parts with quantifier } := by
  have hbase := readBase?_append h.baseName h.role
  unfold named parts
  cases h.adjective with
  | none =>
    have hnone := adjectiveReadings_eq_nil (h.baseName.ne_of_head? (m := '*') (by decide)
      (roleText h.role))
    simp [readAfterQuantifier?, marked, hnone, hbase]
  | some x =>
    obtain ⟨more, hreadings⟩ := adjectiveReadings_marked x
      (h.baseName.isBlank_of_head? (roleText h.role))
    simp [readAfterQuantifier?, hreadings, hbase]

theorem readAfterHashes?_marked :
    readAfterHashes? (marked ['*'] h.quantifier h.named) = some h.parts := by
  have hquantifier : h.parts = { h.parts with quantifier := h.quantifier.map Phrase.text } := rfl
  rw [hquantifier]
  cases h.quantifier with
  | none =>
    have hnil : quantifierReadings h.named = [] :=
      quantifierReadings_eq_nil (h.baseName.ne_of_head? (by decide) _)
    simp [readAfterHashes?, marked, hnil, h.readAfterQuantifier?_named]
  | some x =>
    simp [readAfterHashes?, quantifierReadings_marked x h.isBlank_of_head?_named,
      h.readAfterQuantifier?_named]

theorem headingParts?_line : headingParts? h.line = some h.parts := by
  have hhash : ('#' == '#') = true := rfl
  have hspace : isBlank ' ' = true := rfl
  have htrim : trimLeft h.line = h.line := rfl
  have hhead : ∀ c ∈ (marked ['*'] h.quantifier h.named).head?, isBlank c = false := by
    cases h.quantifier with
    | none => exact h.isBlank_of_head?_named
    | some x => exact forall_mem_head?_cons.mpr rfl
  have hhashes : restsAfterSome (· == '#') h.line =
      [' ' :: marked ['*'] h.quantifier h.named] :=
    restsAfterSome_cons hhash (by simp)
  have hskip : restsAfter isBlank (' ' :: marked ['*'] h.quantifier h.named) =
      [marked ['*'] h.quantifier h.named, ' ' :: marked ['*'] h.quantifier h.named] := by
    rw [restsAfter_cons, if_pos hspace, restsAfter_of_head? hhead]
    rfl
  rw [headingParts?, htrim, hhashes, List.findSome?_singleton, hskip, List.findSome?_cons,
    h.readAfterHashes?_marked]

end HeadingText

theorem displayName_eq {barred : List Char} (adjective : Option (Phrase barred))
    (base : Phrase barred) :
    displayName (adjective.map Phrase.toString) base.toString =
      String.ofList (marked ['*', '*'] adjective base.text) := by
  cases adjective with
  | none => rfl
  | some x =>
    rw [displayName, Option.map_some, Option.filter_some, x.isEmpty_toString]
    apply String.toList_inj.mp
    simp [marked, Phrase.toString]

/-- A heading is taken apart into the parts that it was written from. -/
theorem HeadingText.withInlineRole_line (h : HeadingText) :
    (headingParts h.line).withInlineRole = h.parts := by
  have hparts : headingParts h.line = h.parts := by
    rw [headingParts, h.headingParts?_line]
    exact congrArg (fun base => { h.parts with baseName := base }) h.baseName.trim_text
  have hnone : bracketMarks.find? h.parts.baseName = none :=
    Marks.findAfter?_eq_none rfl (h.baseName.notMem_text (by decide)) []
  rw [hparts, HeadingParts.withInlineRole, hnone]
  cases h.parts.role <;> rfl

/-- **Headings are read as they were written**: a heading says what it was written from, with the
default role if it has none. -/
theorem Heading.ofLine_written (h : HeadingText) (defaultRole : String) :
    Heading.ofLine (String.ofList h.line) defaultRole = h.heading defaultRole := by
  rw [Heading.ofLine, String.toList_ofList, h.withInlineRole_line]
  simp only [HeadingText.parts, Option.map_map, Phrase.trimmed_comp_text]
  rw [HeadingText.heading, ← displayName_eq]
  rfl

/-- A heading with all parts. -/
def HeadingText.tapWater : HeadingText where
  quantifier := some (.ofString "all" (by decide))
  adjective := some (.ofString "hot" (by decide))
  baseName := .ofString "Tap water" (by decide)
  role := some (.ofString "Thing" (by decide))

theorem Heading.ofLine_tapWater : Heading.ofLine "# *all* **hot** Tap water [Thing]" "individual" =
    ⟨"hot_tap_water", "Tap water", "**hot** Tap water", "Thing", some "hot", some "universal"⟩ := by
  have hline : "# *all* **hot** Tap water [Thing]" = String.ofList HeadingText.tapWater.line := by
    decide +kernel
  rw [hline, Heading.ofLine_written]
  decide +kernel

end NoteGraph.Language
