import NoteGraph.Proofs.Ledger.LeadingNumeral

/-!
# Plain fractions

A plain fraction is a sign or none, digits of any script, and maybe a point with more digits.
Wherever a ledger looks for an amount, it reads all of a plain fraction and nothing less, as
the number that its decimal fraction stands for.
-/

namespace NoteGraph.Ledger

open Text (isBlank isDigit run?)
open Number (Decimal digitsValue plainDigit)

theorem mem_of_spanSign {cs : List Char} {c : Char} (hc : c ∈ cs) :
    c = '+' ∨ c = '-' ∨ c ∈ (spanSign cs).2 := by
  obtain ⟨hsign, heq⟩ := isSign_spanSign cs
  rw [heq, List.mem_append] at hc
  generalize spanSign cs = span at hsign hc ⊢
  rcases hc with hc | hc
  · rcases hsign with h | h | h
    all_goals
      rw [h] at hc
      simp_all
  · exact .inr (.inr hc)

/-- No blank stands in a plain fraction. -/
theorem isBlank_of_isPlainFraction {cs : List Char} (h : isPlainFraction cs = true) :
    ∀ c ∈ cs, isBlank c = false := by
  have hmarks : isBlank '+' = false ∧ isBlank '-' = false ∧ isBlank '.' = false := by decide
  have hdigits : ∀ {run : List Char}, run.all isDigit = true → ∀ c ∈ run, isBlank c = false :=
    fun hrun c hc => Text.isBlank_of_isDigit (List.all_eq_true.mp hrun c hc)
  intro c hc
  rcases mem_of_spanSign hc with rfl | rfl | hc
  · exact hmarks.1
  · exact hmarks.2.1
  · unfold isPlainFraction at h
    split at h
    · rename_i whole hrun
      obtain ⟨heq, hwhole, -⟩ := Text.run?_eq_some_iff.mp hrun
      rw [heq, List.append_nil] at hc
      exact hdigits hwhole c hc
    · rename_i whole places hrun
      obtain ⟨heq, hwhole, -⟩ := Text.run?_eq_some_iff.mp hrun
      rw [heq, List.mem_append, List.mem_cons] at hc
      rw [Bool.and_eq_true] at h
      rcases hc with hc | rfl | hc
      · exact hdigits hwhole c hc
      · exact hmarks.2.2
      · exact hdigits h.2 c hc
    · cases h

/-- A plain fraction as it is written. -/
structure PlainFraction where
  sign : Option Char
  whole : List Char
  places : List Char
  sign_mem : ∀ c ∈ sign, c = '+' ∨ c = '-'
  whole_ne_nil : whole ≠ []
  isDigit_whole : whole.all isDigit = true
  isDigit_places : places.all isDigit = true

namespace PlainFraction

/-- The point of a fraction and the digits after it; no point if there are none. -/
def pointed (places : List Char) : List Char := if places.isEmpty then [] else '.' :: places

/-- The text of a plain fraction. -/
def text (x : PlainFraction) : List Char := x.sign.toList ++ x.whole ++ pointed x.places

/-- The decimal fraction that a plain fraction stands for. -/
def decimal (x : PlainFraction) : Decimal where
  negative := x.sign = some '-'
  digits := digitsValue ((x.whole ++ x.places).map plainDigit)
  exponent := -x.places.length

/-- The number that a plain fraction is read as. -/
def value (x : PlainFraction) : Number := .float x.decimal.toBinary64

variable (x : PlainFraction)

theorem mem_pointed {places : List Char} {c : Char} (hc : c ∈ pointed places) :
    c = '.' ∨ c ∈ places := by
  unfold pointed at hc
  split_ifs at hc
  · cases hc
  · exact List.mem_cons.mp hc

theorem head?_pointed (places : List Char) : ∀ c ∈ (pointed places).head?, c = '.' := by
  unfold pointed
  split_ifs <;> simp

theorem mem_text {c : Char} (hc : c ∈ x.text) : isDigit c = true ∨ c = '+' ∨ c = '-' ∨ c = '.' := by
  rw [text, List.mem_append, List.mem_append, Option.mem_toList] at hc
  rcases hc with (hc | hc) | hc
  · rcases x.sign_mem c hc with h | h <;> simp [h]
  · exact Or.inl (List.all_eq_true.mp x.isDigit_whole c hc)
  · rcases mem_pointed hc with h | h
    · simp [h]
    · exact Or.inl (List.all_eq_true.mp x.isDigit_places c h)

theorem isBlank_of_mem_text {c : Char} (hc : c ∈ x.text) : isBlank c = false := by
  rcases x.mem_text hc with h | rfl | rfl | rfl
  · exact Text.isBlank_of_isDigit h
  all_goals decide

theorem text_ne_nil : x.text ≠ [] := by
  simp [text, x.whole_ne_nil]

/-- The first digit of a plain fraction. -/
theorem exists_whole : ∃ c rest, x.whole = c :: rest ∧ isDigit c = true := by
  have hdigits := x.isDigit_whole
  cases h : x.whole with
  | nil => exact absurd h x.whole_ne_nil
  | cons c rest =>
    rw [h, List.all_cons, Bool.and_eq_true] at hdigits
    exact ⟨c, rest, rfl, hdigits.1⟩

theorem spanSign_text : spanSign x.text = (x.sign.toList, x.whole ++ pointed x.places) := by
  obtain ⟨c, rest, hwhole, hc⟩ := x.exists_whole
  have hplus : c ≠ '+' := by
    rintro rfl
    exact absurd hc (by decide)
  have hminus : c ≠ '-' := by
    rintro rfl
    exact absurd hc (by decide)
  rw [text, hwhole]
  cases hsign : x.sign with
  | none => simp [spanSign, hplus, hminus]
  | some s => rcases x.sign_mem s hsign with rfl | rfl <;> rfl

theorem run?_whole :
    run? isDigit (x.whole ++ pointed x.places) = some (x.whole, pointed x.places) := by
  refine Text.run?_append x.whole_ne_nil x.isDigit_whole fun c hc => ?_
  rw [head?_pointed x.places c hc]
  decide

theorem isPlainFraction_text : isPlainFraction x.text = true := by
  rw [isPlainFraction, x.spanSign_text, x.run?_whole]
  cases h : x.places with
  | nil => rfl
  | cons c rest => simpa [pointed, h] using x.isDigit_places

/-! ### Reading the whole fraction -/

theorem spanFraction?_eq : spanFraction? (x.whole ++ pointed x.places) =
    some (x.whole ++ pointed x.places, []) := by
  unfold spanFraction?
  rw [x.run?_whole]
  cases h : x.places with
  | nil => simp [pointed]
  | cons c rest =>
    have hall := List.all_eq_true.mp (h ▸ x.isDigit_places)
    simp [pointed, List.takeWhile_eq_self_iff.mpr hall, List.dropWhile_eq_nil_iff.mpr hall]

theorem leadingNumeral?_text : leadingNumeral? x.text = some x.text := by
  have hblank : ∀ c ∈ x.text.head?, isBlank c = false := fun c hc =>
    x.isBlank_of_mem_text (List.mem_of_mem_head? hc)
  rw [leadingNumeral?, Text.takeWhile_of_head? hblank, Text.dropWhile_of_head? hblank,
    x.spanSign_text]
  simp [x.spanFraction?_eq, leadingExponent, text]

/-! ### The number that is read -/

/-- A plain fraction is a numeral without an exponent. -/
def toNumeral : Numeral where
  sign := x.sign.toList
  whole := x.whole
  places := if x.places = [] then none else some x.places
  exponent := none
  isSign_sign := by
    cases h : x.sign with
    | none => exact .inl rfl
    | some c => rcases x.sign_mem c h with rfl | rfl <;> simp [IsSign]
  isDigit_whole := x.isDigit_whole
  isDigit_places := by
    intro digits hdigits
    split_ifs at hdigits
    · cases hdigits
    · obtain rfl := Option.some.inj hdigits
      exact x.isDigit_places
  some_digit := by simp [x.whole_ne_nil]

theorem text_toNumeral : x.toNumeral.text = x.text := by
  have hpoint : pointText (if x.places = [] then none else some x.places) = pointed x.places := by
    cases x.places <;> rfl
  simp [toNumeral, Numeral.text, text, hpoint, exponentText]

theorem decimal_toNumeral : x.toNumeral.decimal = x.decimal := by
  have hplaces : (if x.places = [] then none else some x.places).getD [] = x.places := by
    cases x.places <;> rfl
  have hsign : x.sign.toList = ['-'] ↔ x.sign = some '-' := by
    cases x.sign <;> simp
  simp [toNumeral, Numeral.decimal, decimal, hplaces, hsign, valueOf, exponentValue]

theorem readNumeral?_text : Number.readNumeral? x.text = some x.decimal.toBinary64 := by
  rw [← x.text_toNumeral, x.toNumeral.readNumeral?_text, x.decimal_toNumeral]

/-- What a cell or a line says with a plain fraction is its number. -/
theorem leadingNumber_text : leadingNumber (String.ofList x.text) = .ok (some x.value) := by
  simp [leadingNumber, Number.readNumeral, String.toList_ofList, x.leadingNumeral?_text,
    x.readNumeral?_text, value, Except.map]

end PlainFraction

end NoteGraph.Ledger
