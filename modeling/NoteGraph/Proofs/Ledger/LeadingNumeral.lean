import NoteGraph.Ledger.Amount
import NoteGraph.Proofs.Text.Written

/-!
# Numerals at the start of a cell

The numeral that is found at the start of a cell has a sign or none, digits with at most one point
among them, and an exponent or none. All of it can be read as a number, so whether a row has an
amount depends only on whether its cell starts with a numeral. A plain fraction is one as well.
-/

namespace NoteGraph

open Text (isBlank isDigit run? forall_isBlank)

/-! ### Digits of all scripts -/

theorem Text.isBlank_of_isDigit {c : Char} (h : isDigit c = true) : isBlank c = false := by
  by_contra hblank
  have hnone := forall_isBlank (P := fun c => isDigit c = false) (by decide +kernel)
    (eq_true_of_ne_false hblank)
  rw [h] at hnone
  cases hnone

namespace Number

theorem exists_plainDigit {c : Char} (h : isDigit c = true) :
    ∃ n < 10, plainDigit c = Char.ofNat (48 + n) := by
  obtain ⟨value, hvalue⟩ := Option.isSome_iff_exists.mp h
  refine ⟨value, ?_, by rw [plainDigit, hvalue]⟩
  obtain ⟨z, hz, rfl⟩ := Option.map_eq_some_iff.mp hvalue
  have hrange := List.find?_some hz
  simp only [Bool.and_eq_true, decide_eq_true_eq] at hrange
  omega

theorem plainDigit_of_isDigit {c : Char} (h : isDigit c = true) :
    isPlainDigit (plainDigit c) = true := by
  obtain ⟨n, hn, heq⟩ := exists_plainDigit h
  have hplain : ∀ n < 10, isPlainDigit (Char.ofNat (48 + n)) = true := by decide
  exact heq ▸ hplain n hn

theorem isDigit_of_isPlainDigit {c : Char} (h : isPlainDigit c = true) : isDigit c = true := by
  have hrange : 48 ≤ c.toNat ∧ c.toNat < 48 + 10 := by
    simp only [isPlainDigit, Bool.and_eq_true, decide_eq_true_eq, Char.le_def,
      UInt32.le_iff_toNat_le] at h
    exact ⟨h.1, Nat.lt_succ_of_le h.2⟩
  rw [Text.isDigit, Text.digitValue?, Text.digitZeros,
    List.find?_cons_of_pos (by simpa using hrange)]
  rfl

theorem plainDigit_of_not_isDigit {c : Char} (h : isDigit c = false) : plainDigit c = c := by
  have hnone : Text.digitValue? c = none := by
    rwa [Text.isDigit, Option.isSome_eq_false_iff, Option.isNone_iff_eq_none] at h
  rw [plainDigit, hnone]

theorem isPlainDigit_plainDigit (c : Char) : isPlainDigit (plainDigit c) = isDigit c := by
  cases h : isDigit c with
  | true => exact plainDigit_of_isDigit h
  | false =>
    rw [plainDigit_of_not_isDigit h]
    exact eq_false_of_ne_true (mt isDigit_of_isPlainDigit (by rw [h]; decide))

/-- Only a mark itself is written as the mark. -/
theorem plainDigit_eq_iff {c m : Char} (hm : isDigit m = false) : plainDigit c = m ↔ c = m := by
  cases h : isDigit c with
  | false => rw [plainDigit_of_not_isDigit h]
  | true =>
    constructor
    · rintro rfl
      rw [isDigit_of_isPlainDigit (plainDigit_of_isDigit h)] at hm
      cases hm
    · rintro rfl
      rw [h] at hm
      cases hm

theorem isPlainDigit_comp_plainDigit : isPlainDigit ∘ plainDigit = isDigit :=
  funext isPlainDigit_plainDigit

theorem takeWhile_map_plainDigit (cs : List Char) :
    (cs.map plainDigit).takeWhile isPlainDigit = (cs.takeWhile isDigit).map plainDigit := by
  rw [List.takeWhile_map, isPlainDigit_comp_plainDigit]

theorem dropWhile_map_plainDigit (cs : List Char) :
    (cs.map plainDigit).dropWhile isPlainDigit = (cs.dropWhile isDigit).map plainDigit := by
  rw [List.dropWhile_map, isPlainDigit_comp_plainDigit]

theorem all_isPlainDigit_map (cs : List Char) :
    (cs.map plainDigit).all isPlainDigit = cs.all isDigit := by
  rw [List.all_map, isPlainDigit_comp_plainDigit]

theorem all_map_plainDigit {digits : List Char} (h : digits.all isDigit = true) :
    (digits.map plainDigit).all isPlainDigit = true := by
  rw [all_isPlainDigit_map, h]

theorem isPadding_of_isBlank {c : Char} (h : isBlank c = false) : isPadding c = false := by
  rw [isPadding, h, Bool.false_and]

theorem dropSeparators?_eq {cs : List Char} (h : '_' ∉ cs) :
    ∀ afterDigit, dropSeparators? afterDigit cs = some cs := by
  induction cs with
  | nil => exact fun _ => rfl
  | cons c rest ih =>
    obtain ⟨hc, hrest⟩ := not_or.mp (List.mem_cons.not.mp h)
    intro afterDigit
    rw [dropSeparators?, if_neg (Ne.symm hc), ih hrest, Option.map_some]

end Number

namespace Ledger

open Number (Decimal digitsValue plainDigit isPlainDigit readNumeral? readFraction? readExponent?
  cutSign)

/-- A sign or none. -/
def IsSign (cs : List Char) : Prop := cs = [] ∨ cs = ['+'] ∨ cs = ['-']

/-- The number that some digits of any script write. -/
def valueOf (digits : List Char) : ℕ := digitsValue (digits.map plainDigit)

/-- The exponent of a numeral. -/
structure Exponent where
  mark : Char
  sign : List Char
  digits : List Char
  mark_mem : mark = 'e' ∨ mark = 'E'
  isSign_sign : IsSign sign
  digits_ne_nil : digits ≠ []
  isDigit_digits : digits.all isDigit = true

/-- A numeral as it starts a cell. -/
structure Numeral where
  sign : List Char
  whole : List Char
  /-- What follows the point, if there is one. -/
  places : Option (List Char)
  exponent : Option Exponent
  isSign_sign : IsSign sign
  isDigit_whole : whole.all isDigit = true
  isDigit_places : ∀ digits ∈ places, digits.all isDigit = true
  some_digit : whole ++ places.getD [] ≠ []

/-! ### Texts and values -/

/-- The text of an exponent, if there is one. -/
def exponentText : Option Exponent → List Char
  | none => []
  | some e => e.mark :: (e.sign ++ e.digits)

/-- What an exponent adds to that of the last digit; nothing if there is none. -/
def exponentValue : Option Exponent → ℤ
  | none => 0
  | some e => if e.sign = ['-'] then -(valueOf e.digits : ℤ) else valueOf e.digits

/-- The point of a numeral and what follows it, if there is one. -/
def pointText : Option (List Char) → List Char
  | none => []
  | some places => '.' :: places

/-- The text of a numeral. -/
def Numeral.text (x : Numeral) : List Char :=
  x.sign ++ (x.whole ++ (pointText x.places ++ exponentText x.exponent))

/-- The decimal fraction that a numeral writes. -/
def Numeral.decimal (x : Numeral) : Decimal where
  negative := x.sign = ['-']
  digits := valueOf (x.whole ++ x.places.getD [])
  exponent := exponentValue x.exponent - (x.places.getD []).length

/-! ### Marks and digits -/

theorem plainDigit_mark {c : Char} (h : c ∈ ['+', '-', '.', 'e', 'E']) :
    plainDigit c = c ∧ isPlainDigit c = false ∧ isBlank c = false ∧ c ≠ '_' := by
  simp only [List.mem_cons, List.not_mem_nil, or_false] at h
  rcases h with rfl | rfl | rfl | rfl | rfl
  all_goals exact ⟨by decide +kernel, by decide, by decide, by decide⟩

theorem Exponent.mark_mem_marks (e : Exponent) : e.mark ∈ ['+', '-', '.', 'e', 'E'] := by
  rcases e.mark_mem with h | h <;> simp [h]

theorem IsSign.map_plainDigit {sign : List Char} (h : IsSign sign) :
    sign.map plainDigit = sign := by
  rcases h with rfl | rfl | rfl
  · rfl
  · exact congrArg (· :: []) (plainDigit_mark (by simp)).1
  · exact congrArg (· :: []) (plainDigit_mark (by simp)).1

theorem cutSign_append {sign rest : List Char} (h : IsSign sign)
    (hrest : ∀ c ∈ rest.head?, c ≠ '+' ∧ c ≠ '-') :
    cutSign (sign ++ rest) = (decide (sign = ['-']), rest) := by
  rcases h with rfl | rfl | rfl
  · cases rest with
    | nil => rfl
    | cons c more =>
      obtain ⟨hplus, hminus⟩ := hrest c rfl
      simp [cutSign, hplus, hminus]
  · rfl
  · rfl

theorem isPlainDigit_of_head? {digits rest : List Char} (hne : digits ≠ [])
    (h : digits.all isDigit = true) :
    ∀ c ∈ (digits.map plainDigit ++ rest).head?, isPlainDigit c = true := by
  obtain ⟨d, more, rfl⟩ := List.exists_cons_of_ne_nil hne
  rw [List.all_cons, Bool.and_eq_true] at h
  intro c hc
  obtain rfl := Option.some.inj hc
  exact Number.plainDigit_of_isDigit h.1

theorem ne_sign_of_isPlainDigit {c : Char} (h : isPlainDigit c = true) : c ≠ '+' ∧ c ≠ '-' := by
  constructor
  all_goals
    rintro rfl
    exact absurd h (by decide)

/-! ### Reading a numeral -/

theorem readExponent?_exponentText (e : Option Exponent) :
    readExponent? ((exponentText e).map plainDigit) = some (exponentValue e) := by
  cases e with
  | none => rfl
  | some e =>
    have hhead := @isPlainDigit_of_head? e.digits [] e.digits_ne_nil e.isDigit_digits
    rw [List.append_nil] at hhead
    have hcut := cutSign_append e.isSign_sign fun c hc => ne_sign_of_isPlainDigit (hhead c hc)
    have hdigits := Number.all_map_plainDigit e.isDigit_digits
    have hmark : e.mark = 'e' ∨ e.mark = 'E' := e.mark_mem
    rw [exponentText, List.map_cons, List.map_append, (plainDigit_mark e.mark_mem_marks).1,
      e.isSign_sign.map_plainDigit]
    simp [readExponent?, hcut, hdigits, hmark, e.digits_ne_nil, exponentValue, valueOf]

/-- An exponent is told from the digits and the point before it. -/
theorem head?_exponentText (e : Option Exponent) :
    ∀ c ∈ ((exponentText e).map plainDigit).head?, isPlainDigit c = false ∧ c ≠ '.' := by
  cases e with
  | none => nofun
  | some e =>
    intro c hc
    obtain rfl := Option.some.inj hc
    obtain ⟨hmark, hdigit, -⟩ := plainDigit_mark e.mark_mem_marks
    rw [hmark]
    refine ⟨hdigit, ?_⟩
    rcases e.mark_mem with h | h <;> simp [h]

namespace Numeral

variable (x : Numeral)

theorem map_plainDigit_text : x.text.map plainDigit =
    x.sign ++ (x.whole.map plainDigit ++ (pointText (x.places.map (·.map plainDigit)) ++
      (exponentText x.exponent).map plainDigit)) := by
  have hpoint : (pointText x.places).map plainDigit =
      pointText (x.places.map (·.map plainDigit)) := by
    cases x.places with
    | none => rfl
    | some digits => exact congrArg (· :: _) (plainDigit_mark (by simp)).1
  rw [text, List.map_append, List.map_append, List.map_append, x.isSign_sign.map_plainDigit, hpoint]

theorem readFraction?_eq (negative : Bool) :
    readFraction? negative (x.whole.map plainDigit ++
      (pointText (x.places.map (·.map plainDigit)) ++ (exponentText x.exponent).map plainDigit)) =
      some ⟨negative, x.decimal.digits, x.decimal.exponent⟩ := by
  have hwhole := Number.all_map_plainDigit x.isDigit_whole
  have hexponent := head?_exponentText x.exponent
  have hread := readExponent?_exponentText x.exponent
  have hsome := x.some_digit
  have hplaces := x.isDigit_places
  unfold readFraction? decimal valueOf
  generalize (exponentText x.exponent).map plainDigit = exponent at hexponent hread ⊢
  cases hp : x.places with
  | none =>
    obtain ⟨htake, hdrop⟩ := Text.takeWhile_append_stop hwhole fun c hc => (hexponent c hc).1
    have hne : x.whole ≠ [] := by simpa [hp] using hsome
    simp only [Option.map_none, pointText, List.nil_append, htake, hdrop]
    cases exponent with
    | nil => simp [hne, hread]
    | cons c more =>
      have hpoint : c ≠ '.' := (hexponent c rfl).2
      simp [hne, hread, hpoint]
  | some digits =>
    have hall := Number.all_map_plainDigit (hplaces digits hp)
    have hpoint : ∀ c ∈ ('.' :: (digits.map plainDigit ++ exponent)).head?,
        isPlainDigit c = false := by
      intro c hc
      obtain rfl := Option.some.inj hc
      exact (plainDigit_mark (by simp)).2.1
    obtain ⟨htake, hdrop⟩ := Text.takeWhile_append_stop hwhole hpoint
    obtain ⟨htake', hdrop'⟩ := Text.takeWhile_append_stop hall fun c hc => (hexponent c hc).1
    have hne : ¬(x.whole = [] ∧ digits = []) := by simpa [hp] using hsome
    simp only [Option.map_some, pointText, List.cons_append, htake, hdrop, htake', hdrop']
    rw [if_neg (by simpa using hne), hread]
    simp

/-- The rest of a numeral behind its sign starts with a digit or a point. -/
theorem head?_behind_sign : ∀ c ∈ (x.whole.map plainDigit ++
    (pointText (x.places.map (·.map plainDigit)) ++
      (exponentText x.exponent).map plainDigit)).head?, c ≠ '+' ∧ c ≠ '-' := by
  have hsome := x.some_digit
  intro c hc
  by_cases hwhole : x.whole = []
  · cases hp : x.places with
    | none => simp [hwhole, hp] at hsome
    | some digits =>
      rw [hwhole, hp] at hc
      obtain rfl := Option.some.inj hc
      decide
  · exact ne_sign_of_isPlainDigit (isPlainDigit_of_head? hwhole x.isDigit_whole c hc)

theorem mem_text {c : Char} (hc : c ∈ x.text) :
    isDigit c = true ∨ c ∈ ['+', '-', '.', 'e', 'E'] := by
  have hsign : ∀ {sign : List Char}, IsSign sign → c ∈ sign → c ∈ ['+', '-', '.', 'e', 'E'] := by
    rintro sign (rfl | rfl | rfl) hmem <;> simp_all
  have hdigits : ∀ {digits : List Char}, digits.all isDigit = true → c ∈ digits →
      isDigit c = true := fun h hmem => List.all_eq_true.mp h c hmem
  simp only [text, List.mem_append] at hc
  rcases hc with hc | hc | hc | hc
  · exact .inr (hsign x.isSign_sign hc)
  · exact .inl (hdigits x.isDigit_whole hc)
  · cases hp : x.places with
    | none =>
      rw [hp] at hc
      cases hc
    | some digits =>
      rw [hp] at hc
      rcases List.mem_cons.mp hc with rfl | hc
      · exact .inr (by simp)
      · exact .inl (hdigits (x.isDigit_places digits hp) hc)
  · cases he : x.exponent with
    | none =>
      rw [he] at hc
      cases hc
    | some e =>
      rw [he] at hc
      rcases List.mem_cons.mp hc with rfl | hc
      · exact .inr e.mark_mem_marks
      · rcases List.mem_append.mp hc with hc | hc
        · exact .inr (hsign e.isSign_sign hc)
        · exact .inl (hdigits e.isDigit_digits hc)

theorem isBlank_of_mem_text {c : Char} (hc : c ∈ x.text) : isBlank c = false := by
  rcases x.mem_text hc with h | h
  · exact Text.isBlank_of_isDigit h
  · exact (plainDigit_mark h).2.2.1

/-- All of a numeral is read, as the decimal fraction that it writes. -/
theorem readNumeral?_text : readNumeral? x.text = some x.decimal.toBinary64 := by
  have hpadding : ∀ c ∈ x.text, Number.isPadding c = false :=
    fun c hc => Number.isPadding_of_isBlank (x.isBlank_of_mem_text hc)
  have hhead : ∀ c ∈ x.text.head?, Number.isPadding c = false :=
    fun c hc => hpadding c (List.mem_of_mem_head? hc)
  have hlast : ∀ c ∈ x.text.getLast?, Number.isPadding c = false :=
    fun c hc => hpadding c (List.mem_of_mem_getLast? hc)
  have hseparators : '_' ∉ x.text.map plainDigit := by
    intro hmem
    obtain ⟨c, hc, heq⟩ := List.mem_map.mp hmem
    rcases x.mem_text hc with h | h
    · exact absurd (heq ▸ Number.plainDigit_of_isDigit h) (by decide)
    · rw [(plainDigit_mark h).1] at heq
      exact (plainDigit_mark h).2.2.2 heq
  rw [readNumeral?, Text.dropWhile_of_head? hhead, Text.dropWhileRight_of_getLast? hlast,
    Number.dropSeparators?_eq hseparators, x.map_plainDigit_text]
  simp only [Option.bind_eq_bind, Option.bind_some,
    cutSign_append x.isSign_sign x.head?_behind_sign, x.readFraction?_eq]
  rfl

end Numeral

/-! ### Finding a numeral -/

theorem isSign_spanSign (cs : List Char) :
    IsSign (spanSign cs).1 ∧ cs = (spanSign cs).1 ++ (spanSign cs).2 := by
  unfold spanSign IsSign
  split <;> simp

theorem exists_exponent (cs : List Char) : ∃ e, leadingExponent cs = exponentText e := by
  unfold leadingExponent
  split
  · rename_i c rest
    split_ifs with hmark
    · cases hrun : run? isDigit (spanSign rest).2 with
      | none => exact ⟨none, by simp [hrun, exponentText]⟩
      | some cut =>
        obtain ⟨digits, more⟩ := cut
        obtain ⟨-, hdigits, hne, -⟩ := Text.run?_eq_some_iff.mp hrun
        exact ⟨some ⟨c, (spanSign rest).1, digits, by simpa using hmark, (isSign_spanSign rest).1,
          hne, hdigits⟩, by simp [hrun, exponentText]⟩
    · exact ⟨none, rfl⟩
  · exact ⟨none, rfl⟩

theorem exists_fraction {cs fraction rest : List Char}
    (h : spanFraction? cs = some (fraction, rest)) :
    ∃ (whole : List Char) (places : Option (List Char)), whole.all isDigit = true ∧
      (∀ digits ∈ places, digits.all isDigit = true) ∧ whole ++ places.getD [] ≠ [] ∧
      fraction = whole ++ pointText places := by
  unfold spanFraction? at h
  split at h
  · rename_i whole more hrun
    obtain ⟨-, hwhole, hne, -⟩ := Text.run?_eq_some_iff.mp hrun
    obtain ⟨rfl, -⟩ := Prod.mk.inj (Option.some.inj h)
    refine ⟨whole, some (more.takeWhile isDigit), hwhole, ?_, by simp [hne], rfl⟩
    rintro digits hdigits
    obtain rfl := Option.some.inj hdigits
    exact List.all_takeWhile
  · rename_i cut _ hrun
    obtain rfl := Option.some.inj h
    obtain ⟨-, hwhole, hne, -⟩ := Text.run?_eq_some_iff.mp hrun
    exact ⟨fraction, none, hwhole, nofun, by simpa using hne, by simp [pointText]⟩
  · split at h
    · rename_i more _
      obtain ⟨⟨places, after⟩, hrun, heq⟩ := Option.map_eq_some_iff.mp h
      obtain ⟨rfl, -⟩ := Prod.mk.inj heq
      obtain ⟨-, hplaces, hne, -⟩ := Text.run?_eq_some_iff.mp hrun
      refine ⟨[], some places, rfl, ?_, by simpa using hne, rfl⟩
      rintro digits hdigits
      obtain rfl := Option.some.inj hdigits
      exact hplaces
    · cases h

/-- What is found at the start of a text without blanks there is a numeral. -/
theorem exists_numeral {cs found : List Char} (hcs : ∀ c ∈ cs.head?, isBlank c = false)
    (h : leadingNumeral? cs = some found) : ∃ x : Numeral, found = x.text := by
  obtain ⟨hsign, -⟩ := isSign_spanSign cs
  unfold leadingNumeral? at h
  rw [Text.dropWhile_of_head? hcs, Text.takeWhile_of_head? hcs] at h
  generalize spanSign cs = span at hsign h
  obtain ⟨sign, behind⟩ := span
  obtain ⟨⟨fraction, rest⟩, hfraction, heq⟩ := Option.map_eq_some_iff.mp h
  obtain ⟨whole, places, hwhole, hplaces, hsome, rfl⟩ := exists_fraction hfraction
  obtain ⟨e, he⟩ := exists_exponent rest
  refine ⟨⟨sign, whole, places, e, hsign, hwhole, hplaces, hsome⟩, ?_⟩
  simpa [Numeral.text, he] using heq.symm

/-- A cell that starts with a numeral has an amount. -/
theorem exists_leadingNumber {cs found : List Char} (hcs : ∀ c ∈ cs.head?, isBlank c = false)
    (h : leadingNumeral? cs = some found) :
    ∃ amount, leadingNumber (String.ofList cs) = .ok (some amount) := by
  obtain ⟨x, rfl⟩ := exists_numeral hcs h
  refine ⟨.float x.decimal.toBinary64, ?_⟩
  simp [leadingNumber, Number.readNumeral, String.toList_ofList, h, x.readNumeral?_text, Except.map]

end Ledger

end NoteGraph
