import NoteGraph.Proofs.Ledger.LeadingNumeral

/-!
# The longest numeral

What is read at the start of a cell is a numeral that stands there, and no numeral that stands
there is longer: the digits, the point and the exponent are each read as far as they go. So the
reader is told by the numerals alone (`leadingNumeral?_eq_some_iff`). A text that is read as a
whole and starts with a numeral is itself a numeral.
-/

namespace NoteGraph.Ledger

open Text (isBlank isDigit run?)
open Number (Decimal plainDigit readNumeral? readFraction? readExponent? readWord? cutSign)

/-! ### What is read stands at the start -/

theorem leadingExponent_isPrefix (cs : List Char) : leadingExponent cs <+: cs := by
  unfold leadingExponent
  split
  · rename_i c rest
    split_ifs
    · cases hrun : run? isDigit (spanSign rest).2 with
      | none => simp [hrun]
      | some cut =>
        obtain ⟨digits, more⟩ := cut
        obtain ⟨hdigits, -⟩ := Text.run?_eq_some_iff.mp hrun
        refine ⟨more, ?_⟩
        simp only [hrun]
        conv_rhs => rw [(isSign_spanSign rest).2, hdigits]
        simp
    · exact List.nil_prefix
  · exact List.nil_prefix

theorem append_of_spanFraction? {cs fraction rest : List Char}
    (h : spanFraction? cs = some (fraction, rest)) : cs = fraction ++ rest := by
  unfold spanFraction? at h
  split at h
  · rename_i whole more hrun
    obtain ⟨heq, -⟩ := Text.run?_eq_some_iff.mp hrun
    obtain ⟨rfl, rfl⟩ := Prod.mk.inj (Option.some.inj h)
    rw [heq, List.append_assoc, List.cons_append, List.takeWhile_append_dropWhile]
  · rename_i cut _ hrun
    obtain rfl := Option.some.inj h
    exact (Text.run?_eq_some_iff.mp hrun).1
  · split at h
    · obtain ⟨⟨places, after⟩, hrun, heq⟩ := Option.map_eq_some_iff.mp h
      obtain ⟨rfl, rfl⟩ := Prod.mk.inj heq
      rw [(Text.run?_eq_some_iff.mp hrun).1, List.cons_append]
    · cases h

theorem leadingNumeral?_of_head? {cs : List Char} (hcs : ∀ c ∈ cs.head?, isBlank c = false) :
    leadingNumeral? cs = (spanFraction? (spanSign cs).2).map fun cut =>
      (spanSign cs).1 ++ (cut.1 ++ leadingExponent cut.2) := by
  rw [leadingNumeral?, Text.dropWhile_of_head? hcs, Text.takeWhile_of_head? hcs]
  simp

theorem isPrefix_of_leadingNumeral? {cs found : List Char}
    (hcs : ∀ c ∈ cs.head?, isBlank c = false) (h : leadingNumeral? cs = some found) :
    found <+: cs := by
  rw [leadingNumeral?_of_head? hcs] at h
  obtain ⟨⟨fraction, rest⟩, hfraction, rfl⟩ := Option.map_eq_some_iff.mp h
  obtain ⟨more, hmore⟩ := leadingExponent_isPrefix rest
  refine ⟨more, ?_⟩
  conv_rhs => rw [(isSign_spanSign cs).2, append_of_spanFraction? hfraction, ← hmore]
  simp

/-! ### Nothing longer stands there -/

/-- A run of digits is read with the digits behind it. -/
theorem run?_append_digits {digits : List Char} (hne : digits ≠ [])
    (h : digits.all isDigit = true) (rest : List Char) :
    run? isDigit (digits ++ rest) =
      some (digits ++ rest.takeWhile isDigit, rest.dropWhile isDigit) := by
  have hall := List.all_eq_true.mp h
  simp [run?, List.takeWhile_append_of_pos hall, List.dropWhile_append_of_pos hall, hne]

theorem run?_eq_none {cs : List Char} (h : ∀ c ∈ cs.head?, isDigit c = false) :
    run? isDigit cs = none := by
  simp [run?, Text.takeWhile_of_head? h]

theorem spanSign_append {sign rest : List Char} (h : IsSign sign)
    (hrest : ∀ c ∈ rest.head?, c ≠ '+' ∧ c ≠ '-') : spanSign (sign ++ rest) = (sign, rest) := by
  rcases h with rfl | rfl | rfl
  · cases rest with
    | nil => rfl
    | cons c more =>
      obtain ⟨hplus, hminus⟩ := hrest c rfl
      simp [spanSign, hplus, hminus]
  · rfl
  · rfl

theorem ne_sign_of_isDigit {c : Char} (h : isDigit c = true) : c ≠ '+' ∧ c ≠ '-' := by
  constructor
  all_goals
    rintro rfl
    exact absurd h (by decide)

/-- Behind the digits of an exponent the reader takes at most more digits. -/
theorem exponentText_isPrefix (e : Option Exponent) (rest : List Char) :
    exponentText e <+: leadingExponent (exponentText e ++ rest) := by
  cases e with
  | none => exact List.nil_prefix
  | some e =>
    have hhead : ∀ c ∈ (e.digits ++ rest).head?, c ≠ '+' ∧ c ≠ '-' := by
      obtain ⟨d, more, hdigits⟩ := List.exists_cons_of_ne_nil e.digits_ne_nil
      have hd := e.isDigit_digits
      rw [hdigits, List.all_cons, Bool.and_eq_true] at hd
      intro c hc
      rw [hdigits] at hc
      obtain rfl := Option.some.inj hc
      exact ne_sign_of_isDigit hd.1
    have hmark : e.mark = 'e' ∨ e.mark = 'E' := e.mark_mem
    have hsign := spanSign_append e.isSign_sign hhead
    rw [exponentText, List.cons_append, List.append_assoc, leadingExponent,
      if_pos (by simpa using hmark), hsign]
    simp [run?_append_digits e.digits_ne_nil e.isDigit_digits]

/-- The digits and the point of a numeral end where neither goes on. -/
theorem spanFraction?_append_stop {whole tail : List Char} {places : Option (List Char)}
    (hwhole : whole.all isDigit = true) (hplaces : ∀ digits ∈ places, digits.all isDigit = true)
    (hsome : whole ++ places.getD [] ≠ [])
    (htail : ∀ c ∈ tail.head?, isDigit c = false ∧ c ≠ '.') :
    spanFraction? (whole ++ (pointText places ++ tail)) =
      some (whole ++ pointText places, tail) := by
  have hstop : ∀ c ∈ tail.head?, isDigit c = false := fun c hc => (htail c hc).1
  have hpoint : isDigit '.' = false := by decide
  unfold spanFraction?
  cases places with
  | none =>
    have hne : whole ≠ [] := by simpa using hsome
    rw [pointText, List.nil_append, List.append_nil, Text.run?_append hne hwhole hstop]
    cases tail with
    | nil => rfl
    | cons c more => simp [(htail c rfl).2]
  | some digits =>
    obtain ⟨htake, hdrop⟩ := Text.takeWhile_append_stop (hplaces digits rfl) hstop
    rw [pointText, List.cons_append]
    by_cases hne : whole = []
    · have hdigits : digits ≠ [] := by simpa [hne] using hsome
      rw [hne, List.nil_append, run?_eq_none (by simp [hpoint])]
      simp [Text.run?_append hdigits (hplaces digits rfl) hstop]
    · rw [Text.run?_append hne hwhole (by simp [hpoint])]
      simp [htake, hdrop]

theorem spanFraction?_append {whole : List Char} {places : Option (List Char)}
    (hwhole : whole.all isDigit = true) (hplaces : ∀ digits ∈ places, digits.all isDigit = true)
    (hsome : whole ++ places.getD [] ≠ []) (rest : List Char) :
    ∃ fraction behind, spanFraction? (whole ++ (pointText places ++ rest)) =
      some (fraction, behind) ∧ whole ++ pointText places <+: fraction := by
  have hpoint : isDigit '.' = false := by decide
  unfold spanFraction?
  cases places with
  | none =>
    have hne : whole ≠ [] := by simpa using hsome
    rw [pointText, List.nil_append, List.append_nil, run?_append_digits hne hwhole]
    split
    · rename_i run more heq
      obtain ⟨rfl, -⟩ := Prod.mk.inj (Option.some.inj heq)
      exact ⟨_, _, rfl, (List.prefix_append _ _).trans (List.prefix_append _ _)⟩
    · rename_i cut _ heq
      obtain rfl := Option.some.inj heq
      exact ⟨_, _, rfl, List.prefix_append _ _⟩
    · rename_i heq
      cases heq
  | some digits =>
    have hall := List.all_eq_true.mp (hplaces digits rfl)
    rw [pointText, List.cons_append]
    by_cases hne : whole = []
    · have hdigits : digits ≠ [] := by simpa [hne] using hsome
      rw [hne, List.nil_append, run?_eq_none (by simp [hpoint])]
      simp [run?_append_digits hdigits (hplaces digits rfl)]
    · rw [Text.run?_append hne hwhole (by simp [hpoint])]
      refine ⟨_, _, rfl, ?_⟩
      rw [List.takeWhile_append_of_pos hall, ← List.cons_append, ← List.append_assoc]
      exact List.prefix_append _ _

namespace Numeral

variable (n : Numeral)

/-- The text of a numeral behind its sign. -/
def unsigned : List Char := n.whole ++ (pointText n.places ++ exponentText n.exponent)

theorem text_eq : n.text = n.sign ++ n.unsigned := rfl

/-- Behind its sign a numeral starts with a digit or a point. -/
theorem exists_unsigned : ∃ c more, n.unsigned = c :: more ∧ (isDigit c = true ∨ c = '.') := by
  have hwhole := n.isDigit_whole
  have hsome := n.some_digit
  unfold unsigned
  cases hw : n.whole with
  | cons c more =>
    rw [hw, List.all_cons, Bool.and_eq_true] at hwhole
    exact ⟨c, _, rfl, .inl hwhole.1⟩
  | nil =>
    cases hp : n.places with
    | none => simp [hw, hp] at hsome
    | some digits => exact ⟨'.', _, rfl, .inr rfl⟩

theorem head?_unsigned (rest : List Char) :
    ∀ c ∈ (n.unsigned ++ rest).head?, c ≠ '+' ∧ c ≠ '-' := by
  obtain ⟨d, more, hunsigned, hd⟩ := n.exists_unsigned
  intro c hc
  rw [hunsigned] at hc
  obtain rfl := Option.some.inj hc
  rcases hd with hd | rfl
  · exact ne_sign_of_isDigit hd
  · decide

theorem text_ne_nil : n.text ≠ [] := by
  obtain ⟨c, more, hunsigned, -⟩ := n.exists_unsigned
  rw [text_eq, hunsigned]
  simp

theorem head?_text_append {p : Char → Bool} (h : ∀ c ∈ n.text, p c = false) (rest : List Char) :
    ∀ c ∈ (n.text ++ rest).head?, p c = false := by
  obtain ⟨d, more, htext⟩ := List.exists_cons_of_ne_nil n.text_ne_nil
  rw [htext, List.cons_append, Text.forall_mem_head?_cons]
  exact h d (htext ▸ List.mem_cons_self)

/-- Where a numeral stands at the start, it is read and maybe more. -/
theorem exists_leadingNumeral? (rest : List Char) :
    ∃ found, leadingNumeral? (n.text ++ rest) = some found ∧ n.text <+: found := by
  have hhead : ∀ c ∈ (n.text ++ rest).head?, isBlank c = false :=
    n.head?_text_append (fun _ hc => n.isBlank_of_mem_text hc) rest
  have hsign := spanSign_append n.isSign_sign (n.head?_unsigned rest)
  rw [leadingNumeral?_of_head? hhead, text_eq, List.append_assoc, hsign]
  cases he : n.exponent with
  | none =>
    obtain ⟨fraction, behind, hspan, hprefix⟩ :=
      spanFraction?_append n.isDigit_whole n.isDigit_places n.some_digit rest
    have hunsigned : n.unsigned = n.whole ++ pointText n.places := by
      simp [unsigned, he, exponentText]
    rw [hunsigned, List.append_assoc, hspan]
    refine ⟨_, rfl, ?_⟩
    rw [List.prefix_append_right_inj]
    exact hprefix.trans (List.prefix_append _ _)
  | some e =>
    have htail : ∀ c ∈ (exponentText (some e) ++ rest).head?, isDigit c = false ∧ c ≠ '.' := by
      intro c hc
      obtain rfl := Option.some.inj hc
      rcases e.mark_mem with h | h <;> rw [h] <;> decide
    have hspan := spanFraction?_append_stop n.isDigit_whole n.isDigit_places n.some_digit htail
    have hunsigned : n.unsigned ++ rest =
        n.whole ++ (pointText n.places ++ (exponentText (some e) ++ rest)) := by
      simp [unsigned, he]
    rw [hunsigned, hspan]
    refine ⟨_, rfl, ?_⟩
    rw [unsigned, he, ← List.append_assoc n.whole, List.prefix_append_right_inj,
      List.prefix_append_right_inj]
    exact exponentText_isPrefix (some e) rest

/-- Whether a numeral is the longest one at the start of a text. -/
structure IsLongest (cs : List Char) : Prop where
  starts : n.text <+: cs
  longest : ∀ m : Numeral, m.text <+: cs → m.text <+: n.text

end Numeral

/-- What is read at the start of a text without blanks there is the longest numeral, if there is
one. -/
theorem leadingNumeral?_eq_some_iff {cs found : List Char}
    (hcs : ∀ c ∈ cs.head?, isBlank c = false) :
    leadingNumeral? cs = some found ↔ ∃ n : Numeral, n.IsLongest cs ∧ found = n.text := by
  constructor
  · intro h
    obtain ⟨n, rfl⟩ := exists_numeral hcs h
    refine ⟨n, ⟨isPrefix_of_leadingNumeral? hcs h, fun m hm => ?_⟩, rfl⟩
    obtain ⟨rest, rfl⟩ := hm
    obtain ⟨found, hfound, hprefix⟩ := m.exists_leadingNumeral? rest
    rwa [Option.some.inj (h.symm.trans hfound)]
  · rintro ⟨n, hn, rfl⟩
    obtain ⟨rest, hrest⟩ := hn.starts
    obtain ⟨found, hfound, hprefix⟩ := n.exists_leadingNumeral? rest
    rw [hrest] at hfound
    obtain ⟨m, rfl⟩ := exists_numeral hcs hfound
    have hback := hn.longest m (isPrefix_of_leadingNumeral? hcs hfound)
    rw [hfound, hback.eq_of_length_le hprefix.length_le]

/-! ### Read as a whole -/

theorem cutSign_map_plainDigit (cs : List Char) : cutSign (cs.map plainDigit) =
    (decide ((spanSign cs).1 = ['-']), (spanSign cs).2.map plainDigit) := by
  cases cs with
  | nil => rfl
  | cons c rest =>
    have hminus := @Number.plainDigit_eq_iff c '-' (by decide +kernel)
    have hplus := @Number.plainDigit_eq_iff c '+' (by decide +kernel)
    by_cases h : c = '-'
    · subst h
      rfl
    · by_cases h' : c = '+'
      · subst h'
        rfl
      · simp [cutSign, spanSign, h, h', hminus, hplus]

theorem exists_exponent_of_readExponent? {cs : List Char} {e : ℤ}
    (h : readExponent? (cs.map plainDigit) = some e) : ∃ e, cs = exponentText e := by
  cases cs with
  | nil => exact ⟨none, rfl⟩
  | cons c rest =>
    obtain ⟨hsign, hrest⟩ := isSign_spanSign rest
    rw [List.map_cons, readExponent?, cutSign_map_plainDigit] at h
    obtain ⟨hexponent, -⟩ := Option.ite_none_right_eq_some.mp h
    simp only [Bool.and_eq_true, Bool.or_eq_true, decide_eq_true_eq, Number.all_isPlainDigit_map,
      Number.plainDigit_eq_iff (show isDigit 'e' = false by decide +kernel),
      Number.plainDigit_eq_iff (show isDigit 'E' = false by decide +kernel)] at hexponent
    obtain ⟨⟨hmark, hne⟩, hdigits⟩ := hexponent
    refine ⟨some ⟨c, (spanSign rest).1, (spanSign rest).2, hmark, hsign, by simpa using hne,
      hdigits⟩, ?_⟩
    rw [exponentText, ← hrest]

theorem exists_fraction_of_readFraction? {negative : Bool} {cs : List Char} {d : Decimal}
    (h : readFraction? negative (cs.map plainDigit) = some d) :
    ∃ (whole : List Char) (places : Option (List Char)) (e : Option Exponent),
      whole.all isDigit = true ∧ (∀ digits ∈ places, digits.all isDigit = true) ∧
      whole ++ places.getD [] ≠ [] ∧ cs = whole ++ (pointText places ++ exponentText e) := by
  have hcs : cs.takeWhile isDigit ++ cs.dropWhile isDigit = cs := List.takeWhile_append_dropWhile
  unfold readFraction? at h
  rw [Number.takeWhile_map_plainDigit, Number.dropWhile_map_plainDigit] at h
  dsimp only at h
  split at h
  · rename_i after hafter
    obtain ⟨c, more, hrest, hpoint, rfl⟩ := List.map_eq_cons_iff.mp hafter
    obtain rfl := (Number.plainDigit_eq_iff (by decide +kernel)).mp hpoint
    simp only [Number.takeWhile_map_plainDigit, Number.dropWhile_map_plainDigit] at h
    obtain ⟨hsome, h⟩ := Option.ite_none_left_eq_some.mp h
    obtain ⟨e, he, -⟩ := Option.map_eq_some_iff.mp h
    obtain ⟨e, he⟩ := exists_exponent_of_readExponent? he
    refine ⟨cs.takeWhile isDigit, some (more.takeWhile isDigit), e, List.all_takeWhile, ?_, ?_, ?_⟩
    · rintro digits hdigits
      obtain rfl := Option.some.inj hdigits
      exact List.all_takeWhile
    · simpa using hsome
    · rw [← he, pointText, List.cons_append, List.takeWhile_append_dropWhile, ← hrest, hcs]
  · obtain ⟨hsome, h⟩ := Option.ite_none_left_eq_some.mp h
    obtain ⟨e, he, -⟩ := Option.map_eq_some_iff.mp h
    obtain ⟨e, he⟩ := exists_exponent_of_readExponent? he
    refine ⟨cs.takeWhile isDigit, none, e, List.all_takeWhile, ?_, by simpa using hsome, ?_⟩
    · intro digits hdigits
      exact absurd hdigits (Option.not_mem_none digits)
    · rw [← he, pointText, List.nil_append, hcs]

/-- The words for numbers that no decimal fraction writes start with one of two letters. -/
theorem readWord?_eq_none {negative : Bool} {cs : List Char}
    (h : ∀ c ∈ cs.head?, c.toLower ≠ 'i' ∧ c.toLower ≠ 'n') : readWord? negative cs = none := by
  cases cs with
  | nil => rfl
  | cons c rest =>
    obtain ⟨hi, hn⟩ := h c rfl
    simp [readWord?, hi, hn]

/-- What starts neither a word nor the infinite and undefined numbers. -/
theorem toLower_plainDigit {c : Char} (h : isDigit c = true ∨ c = '.' ∨ isBlank c = true) :
    (plainDigit c).toLower ≠ 'i' ∧ (plainDigit c).toLower ≠ 'n' := by
  rcases h with h | rfl | h
  · obtain ⟨n, hn, heq⟩ := Number.exists_plainDigit h
    have hlower : ∀ n < 10, (Char.ofNat (48 + n)).toLower ≠ 'i' ∧
        (Char.ofNat (48 + n)).toLower ≠ 'n' := by decide
    exact heq ▸ hlower n hn
  · decide +kernel
  · exact Text.forall_isBlank (P := fun c => (plainDigit c).toLower ≠ 'i' ∧
      (plainDigit c).toLower ≠ 'n') (by decide +kernel) h

/-- A text that is read as a number and is no word is a numeral. -/
theorem exists_numeral_of_readNumeral? {cs : List Char} {y : Number.Binary64}
    (hhead : ∀ c ∈ cs.head?, Number.isPadding c = false)
    (hlast : ∀ c ∈ cs.getLast?, Number.isPadding c = false) (hseparators : '_' ∉ cs)
    (hword : ∀ c ∈ (spanSign cs).2.head?, isDigit c = true ∨ c = '.' ∨ isBlank c = true)
    (h : readNumeral? cs = some y) : ∃ x : Numeral, x.text = cs := by
  have hmap : '_' ∉ cs.map plainDigit := by
    intro hmem
    obtain ⟨c, hc, heq⟩ := List.mem_map.mp hmem
    exact hseparators ((Number.plainDigit_eq_iff (by decide +kernel)).mp heq ▸ hc)
  have hnone : ∀ negative, readWord? negative ((spanSign cs).2.map plainDigit) = none := by
    intro negative
    refine readWord?_eq_none fun c hc => ?_
    rw [List.head?_map] at hc
    obtain ⟨d, hd, rfl⟩ := Option.map_eq_some_iff.mp hc
    exact toLower_plainDigit (hword d hd)
  obtain ⟨hsign, hcs⟩ := isSign_spanSign cs
  rw [readNumeral?, Text.dropWhile_of_head? hhead, Text.dropWhileRight_of_getLast? hlast,
    Number.dropSeparators?_eq hmap] at h
  simp only [Option.bind_eq_bind, Option.bind_some, cutSign_map_plainDigit] at h
  split at h
  · rename_i hfraction
    obtain ⟨whole, places, e, hwhole, hplaces, hsome, hbehind⟩ :=
      exists_fraction_of_readFraction? hfraction
    exact ⟨⟨(spanSign cs).1, whole, places, e, hsign, hwhole, hplaces, hsome⟩,
      by rw [Numeral.text, ← hbehind, ← hcs]⟩
  · rw [hnone] at h
    cases h

end NoteGraph.Ledger
