import NoteGraph.Net.Books
import NoteGraph.Proofs.Ledger.LongestNumeral
import NoteGraph.Proofs.Number.FarApart

/-!
# Two readers of amounts

A ledger reads the longest numeral at the start of a cell. The books read a whole text, without
quotes around it and without the separators of its digits. Where both read a number, the ledger's
numeral is the start of that of the books, so a text on which they differ is cut
(`readersAgree_iff_forall_isCut`). Without a separator nothing is cut, and an amount whose digits
are grouped always is.
-/

namespace NoteGraph.Ledger

open Text (isBlank isDigit dropWhileRight trim trimLeft trimRight)
open Number (Decimal plainDigit isPadding readNumeral?)

/-- The readers of a text agree if they return the same number wherever both return one. -/
def ReadersAgree (text : String) : Prop :=
  ∀ x y, leadingNumber text = .ok (some x) → readAmount? text = some y → x = .float y

/-! ### What the ledger reads -/

namespace Numeral

variable (n : Numeral)

theorem not_mem_text {m : Char} (hdigit : isDigit m = false)
    (hmark : m ∉ ['+', '-', '.', 'e', 'E']) : m ∉ n.text := by
  intro hm
  rcases n.mem_text hm with h | h
  · rw [hdigit] at h
    cases h
  · exact hmark h

theorem getLast?_append_text (cs : List Char) :
    ∀ c ∈ (cs ++ n.text).getLast?, isBlank c = false := by
  intro c hc
  rw [List.getLast?_append_of_ne_nil _ n.text_ne_nil] at hc
  exact n.isBlank_of_mem_text (List.mem_of_mem_getLast? hc)

theorem readNumeral?_blanks_append {blanks : List Char} (h : ∀ c ∈ blanks, isPadding c = true) :
    readNumeral? (blanks ++ n.text) = some n.decimal.toBinary64 := by
  rw [← n.readNumeral?_text, readNumeral?, readNumeral?, List.dropWhile_append_of_pos h]

/-- A blank that may not stand around a numeral is not read. -/
theorem readNumeral?_blank_cons {b : Char} {more : List Char} (hpadding : isPadding b = false)
    (hblank : ∀ c ∈ b :: more, isBlank c = true) :
    readNumeral? (b :: more ++ n.text) = none := by
  have hb : isBlank b = true := hblank b List.mem_cons_self
  have hmark : ∀ {d : Char}, isBlank d = false → ∀ c ∈ b :: more, c ≠ d :=
    fun hd c hc => (Text.ne_of_isBlank (hblank c hc) hd).symm
  have hlast : ∀ c ∈ (b :: more ++ n.text).getLast?, isPadding c = false :=
    fun c hc => Number.isPadding_of_isBlank (n.getLast?_append_text _ c hc)
  have hseparators : '_' ∉ b :: more ++ n.text := by
    rw [List.mem_append, not_or]
    exact ⟨fun hmem => hmark (by decide) _ hmem rfl,
      n.not_mem_text (by decide +kernel) (by decide)⟩
  have hsign : spanSign (b :: more ++ n.text) = ([], b :: more ++ n.text) := by
    refine @spanSign_append [] _ (.inl rfl) fun c hc => ?_
    obtain rfl := Option.some.inj hc
    exact ⟨hmark (by decide) b List.mem_cons_self, hmark (by decide) b List.mem_cons_self⟩
  have hbehind : ∀ c ∈ (spanSign (b :: more ++ n.text)).2.head?,
      isDigit c = true ∨ c = '.' ∨ isBlank c = true := by
    rw [hsign]
    exact Text.forall_mem_head?_cons.mpr (.inr (.inr hb))
  by_contra hread
  obtain ⟨y, hy⟩ := Option.ne_none_iff_exists'.mp hread
  obtain ⟨m, hm⟩ := exists_numeral_of_readNumeral? (Text.forall_mem_head?_cons.mpr hpadding) hlast
    hseparators hbehind hy
  have hnot := m.isBlank_of_mem_text (c := b) (by rw [hm]; exact List.mem_cons_self)
  rw [hb] at hnot
  cases hnot

theorem isPadding_of_readNumeral? {blanks : List Char} {y : Number.Binary64}
    (hblanks : ∀ c ∈ blanks, isBlank c = true)
    (h : readNumeral? (blanks ++ n.text) = some y) : ∀ c ∈ blanks, isPadding c = true := by
  rw [← List.dropWhile_eq_nil_iff]
  by_contra hne
  obtain ⟨b, more, hdrop⟩ := List.exists_cons_of_ne_nil hne
  have hpadding : isPadding b = false :=
    Text.head?_dropWhile isPadding blanks b (by rw [hdrop]; rfl)
  have hblank : ∀ c ∈ b :: more, isBlank c = true := by
    rw [← hdrop]
    exact fun c hc => hblanks c ((List.dropWhile_suffix _).subset hc)
  have hread : readNumeral? (b :: more ++ n.text) = some y := by
    rw [← h, readNumeral?, readNumeral?, (Text.dropWhile_append_of_ne_nil hne _).1, hdrop,
      List.cons_append, List.dropWhile_cons_of_neg (by rw [hpadding]; decide)]
  rw [n.readNumeral?_blank_cons hpadding hblank] at hread
  cases hread

end Numeral

theorem leadingNumeral?_eq_map (cs : List Char) : leadingNumeral? cs =
    (leadingNumeral? (trimLeft cs)).map (cs.takeWhile isBlank ++ ·) := by
  have hhead : ∀ c ∈ (trimLeft cs).head?, isBlank c = false := Text.head?_dropWhile isBlank cs
  rw [leadingNumeral?_of_head? hhead, leadingNumeral?, Option.map_map]
  simp [trimLeft, Function.comp_def]

/-- The ledger reads the longest numeral behind the blanks of a text, if these may stand around a
numeral. -/
theorem leadingNumber_eq_ok_some_iff {text : String} {x : Number} :
    leadingNumber text = .ok (some x) ↔
      (∀ c ∈ text.toList.takeWhile isBlank, isPadding c = true) ∧
        ∃ n : Numeral, n.IsLongest (trimLeft text.toList) ∧ x = .float n.decimal.toBinary64 := by
  have hhead : ∀ c ∈ (trimLeft text.toList).head?, isBlank c = false :=
    Text.head?_dropWhile isBlank text.toList
  have hblanks : ∀ c ∈ text.toList.takeWhile isBlank, isBlank c = true :=
    List.all_eq_true.mp List.all_takeWhile
  rw [leadingNumber, leadingNumeral?_eq_map]
  constructor
  · intro h
    cases hfound : leadingNumeral? (trimLeft text.toList) with
    | none =>
      rw [hfound] at h
      cases h
    | some found =>
      obtain ⟨n, hn, rfl⟩ := (leadingNumeral?_eq_some_iff hhead).mp hfound
      simp only [hfound, Option.map_some, Number.readNumeral, String.toList_ofList] at h
      cases hread : readNumeral? (text.toList.takeWhile isBlank ++ n.text) with
      | none =>
        rw [hread] at h
        cases h
      | some y =>
        have hpadding := n.isPadding_of_readNumeral? hblanks hread
        rw [n.readNumeral?_blanks_append hpadding] at h
        exact ⟨hpadding, n, hn, (Option.some.inj (Except.ok.inj h)).symm⟩
  · rintro ⟨hpadding, n, hn, rfl⟩
    have hfound := (leadingNumeral?_eq_some_iff hhead).mpr ⟨n, hn, rfl⟩
    simp only [hfound, Option.map_some, Number.readNumeral, String.toList_ofList,
      n.readNumeral?_blanks_append hpadding]
    rfl

/-! ### What the books read -/

def isAmountQuote (c : Char) : Bool := c = '"' || c = '\''

/-- What may stand between the digits of an amount. -/
def isDigitSeparator (c : Char) : Bool := c = ',' || c = '_'

theorem isDigit_of_isDigitSeparator {c : Char} (h : isDigitSeparator c = true) :
    isDigit c = false := by
  simp only [isDigitSeparator, Bool.or_eq_true, decide_eq_true_eq] at h
  rcases h with rfl | rfl <;> decide +kernel

theorem isDigitSeparator_of_isDigit {c : Char} (h : isDigit c = true) :
    isDigitSeparator c = false := by
  by_contra hseparator
  rw [isDigit_of_isDigitSeparator (eq_true_of_ne_false hseparator)] at h
  cases h

/-- What the books read of a text: its numeral without quotes and separators. -/
def amountText (cs : List Char) : List Char :=
  trim ((dropWhileRight isAmountQuote ((trim cs).dropWhile isAmountQuote)).filter
    (!isDigitSeparator ·))

theorem readAmount?_eq (text : String) :
    readAmount? text = readNumeral? (amountText text.toList) := by
  have hkept : (fun c => c != ',' && c != '_') = fun c => !isDigitSeparator c := by
    funext c
    rw [isDigitSeparator, Bool.not_or]
    rfl
  rw [readAmount?, hkept]
  rfl

/-- What the books read behind the numeral that starts a text. -/
def keptBehind (rest : List Char) : List Char :=
  trimRight ((dropWhileRight isAmountQuote (trimRight rest)).filter (!isDigitSeparator ·))

namespace Numeral

variable (n : Numeral)

theorem isAmountQuote_of_mem_text {c : Char} (hc : c ∈ n.text) : isAmountQuote c = false := by
  have hdouble := n.not_mem_text (m := '"') (by decide +kernel) (by decide)
  have hsingle := n.not_mem_text (m := '\'') (by decide +kernel) (by decide)
  have hne : c ≠ '"' ∧ c ≠ '\'' :=
    ⟨ne_of_mem_of_not_mem hc hdouble, ne_of_mem_of_not_mem hc hsingle⟩
  simp [isAmountQuote, hne]

theorem isDigitSeparator_of_mem_text {c : Char} (hc : c ∈ n.text) : isDigitSeparator c = false := by
  have hcomma := n.not_mem_text (m := ',') (by decide +kernel) (by decide)
  have hline := n.not_mem_text (m := '_') (by decide +kernel) (by decide)
  have hne : c ≠ ',' ∧ c ≠ '_' := ⟨ne_of_mem_of_not_mem hc hcomma, ne_of_mem_of_not_mem hc hline⟩
  simp [isDigitSeparator, hne]

theorem dropWhileRight_text_append {p : Char → Bool} (h : ∀ c ∈ n.text, p c = false)
    (rest : List Char) : dropWhileRight p (n.text ++ rest) = n.text ++ dropWhileRight p rest :=
  Text.dropWhileRight_append_of_getLast? (fun c hc => h c (List.mem_of_mem_getLast? hc)) rest

end Numeral

/-- The books read all of a numeral that starts a text. -/
theorem amountText_eq {cs rest : List Char} {n : Numeral} (h : trimLeft cs = n.text ++ rest) :
    amountText cs = n.text ++ keptBehind rest := by
  have hblank : ∀ c ∈ n.text, isBlank c = false := fun _ hc => n.isBlank_of_mem_text hc
  have hquote : ∀ c ∈ n.text, isAmountQuote c = false := fun _ hc => n.isAmountQuote_of_mem_text hc
  have hkept : n.text.filter (!isDigitSeparator ·) = n.text := by
    rw [List.filter_eq_self]
    intro c hc
    rw [n.isDigitSeparator_of_mem_text hc]
    rfl
  have htrim : trim cs = n.text ++ trimRight rest := by
    rw [trim, h, trimRight, n.dropWhileRight_text_append hblank, trimRight]
  rw [amountText, htrim, Text.dropWhile_of_head? (n.head?_text_append hquote _),
    n.dropWhileRight_text_append hquote, List.filter_append, hkept, trim, trimLeft,
    Text.dropWhile_of_head? (n.head?_text_append hblank _), trimRight,
    n.dropWhileRight_text_append hblank]
  rfl

/-- What the books read of a text that starts with a numeral is a numeral as well. -/
theorem exists_numeral_of_readAmount? {text : String} {n : Numeral} {y : Number.Binary64}
    (hn : n.text <+: trimLeft text.toList) (h : readAmount? text = some y) :
    ∃ m : Numeral, amountText text.toList = m.text ∧ y = m.decimal.toBinary64 := by
  obtain ⟨rest, hrest⟩ := hn
  have hamount := amountText_eq hrest.symm
  have hpadding : ∀ c ∈ n.text, isPadding c = false :=
    fun c hc => Number.isPadding_of_isBlank (n.isBlank_of_mem_text hc)
  have hlast : ∀ c ∈ (n.text ++ keptBehind rest).getLast?, isPadding c = false := by
    intro c hc
    by_cases hkept : keptBehind rest = []
    · rw [hkept, List.append_nil] at hc
      exact hpadding c (List.mem_of_mem_getLast? hc)
    · rw [List.getLast?_append_of_ne_nil _ hkept] at hc
      exact Number.isPadding_of_isBlank (Text.getLast?_dropWhileRight c hc)
  have hseparators : '_' ∉ n.text ++ keptBehind rest := by
    rw [← hamount]
    intro hmem
    have hfilter :=
      (List.dropWhile_suffix _).subset ((Text.dropWhileRight_isPrefix _ _).subset hmem)
    simp [isDigitSeparator] at hfilter
  have hsign : spanSign (n.text ++ keptBehind rest) = (n.sign, n.unsigned ++ keptBehind rest) := by
    rw [n.text_eq, List.append_assoc]
    exact spanSign_append n.isSign_sign (n.head?_unsigned _)
  have hbehind : ∀ c ∈ (spanSign (n.text ++ keptBehind rest)).2.head?,
      isDigit c = true ∨ c = '.' ∨ isBlank c = true := by
    obtain ⟨d, more, hunsigned, hd⟩ := n.exists_unsigned
    rw [hsign, hunsigned, List.cons_append, Text.forall_mem_head?_cons]
    exact hd.imp_right .inl
  rw [readAmount?_eq, hamount] at h
  obtain ⟨m, hm⟩ := exists_numeral_of_readNumeral? (n.head?_text_append hpadding _) hlast
    hseparators hbehind h
  rw [← hm, m.readNumeral?_text] at h
  exact ⟨m, hamount.trans hm.symm, (Option.some.inj h).symm⟩

/-! ### Texts that are cut -/

/-- The ledger reads the numeral `n` and the books read the numeral `m` of a text, and `m` goes
on behind `n`. -/
structure IsCut (text : String) (n m : Numeral) : Prop where
  padded : ∀ c ∈ text.toList.takeWhile isBlank, isPadding c = true
  leading : n.IsLongest (trimLeft text.toList)
  amount : amountText text.toList = m.text
  cut : n.text ≠ m.text

theorem Numeral.toBinary64_eq_of_text_eq {n m : Numeral} (h : n.text = m.text) :
    n.decimal.toBinary64 = m.decimal.toBinary64 := by
  have hn := n.readNumeral?_text
  rw [h, m.readNumeral?_text] at hn
  exact (Option.some.inj hn).symm

/-- The readers of a text agree exactly if it is not cut, or the cut does not matter. -/
theorem readersAgree_iff_forall_isCut (text : String) : ReadersAgree text ↔
    ∀ n m, IsCut text n m → n.decimal.toBinary64 = m.decimal.toBinary64 := by
  constructor
  · intro h n m hcut
    have hledger := leadingNumber_eq_ok_some_iff.mpr ⟨hcut.padded, n, hcut.leading, rfl⟩
    have hbooks : readAmount? text = some m.decimal.toBinary64 := by
      rw [readAmount?_eq, hcut.amount, m.readNumeral?_text]
    exact Number.float.inj (h _ _ hledger hbooks)
  · intro h x y hledger hbooks
    obtain ⟨hpadded, n, hn, rfl⟩ := leadingNumber_eq_ok_some_iff.mp hledger
    obtain ⟨m, hm, rfl⟩ := exists_numeral_of_readAmount? hn.starts hbooks
    by_cases hcut : n.text = m.text
    · rw [Numeral.toBinary64_eq_of_text_eq hcut]
    · rw [h n m ⟨hpadded, hn, hm, hcut⟩]

/-- Without separators nothing is cut. -/
theorem not_isCut {text : String} (h : ∀ c ∈ text.toList, isDigitSeparator c = false)
    (n m : Numeral) : ¬IsCut text n m := by
  rintro ⟨-, hn, hm, hcut⟩
  obtain ⟨rest, hrest⟩ := hn.starts
  have hkept : keptBehind rest <+: rest := by
    have hall : ∀ c ∈ dropWhileRight isAmountQuote (trimRight rest),
        isDigitSeparator c = false := by
      intro c hc
      have hmem := (Text.dropWhileRight_isPrefix _ _).subset
        ((Text.dropWhileRight_isPrefix _ _).subset hc)
      refine h c ((List.dropWhile_suffix isBlank).subset ?_)
      rw [← trimLeft, ← hrest]
      exact List.mem_append_right _ hmem
    rw [keptBehind, List.filter_eq_self.mpr fun c hc => by rw [hall c hc]; rfl]
    exact (Text.dropWhileRight_isPrefix _ _).trans
      ((Text.dropWhileRight_isPrefix _ _).trans (Text.dropWhileRight_isPrefix _ _))
  rw [amountText_eq hrest.symm] at hm
  have hstart : m.text <+: trimLeft text.toList := by
    rw [← hm, ← hrest, List.prefix_append_right_inj]
    exact hkept
  exact hcut ((List.IsPrefix.eq_of_length_le ⟨_, hm⟩ (hn.longest m hstart).length_le))

/-! ### Grouped digits -/

theorem valueOf_append (x y : List Char) :
    valueOf (x ++ y) = 10 ^ y.length * valueOf x + valueOf y := by
  have h : valueOf (x ++ y) = Nat.ofDigitChars 10 (y.map plainDigit) (valueOf x) := by
    rw [valueOf, List.map_append]
    exact List.foldl_append
  rw [h, Nat.ofDigitChars_eq_ofDigitChars_zero, List.length_map]
  rfl

/-- An amount whose digits are grouped. -/
structure GroupedAmount where
  sign : List Char
  /-- The digits before the first separator. -/
  group : List Char
  separator : Char
  /-- The digits and separators behind the first separator. -/
  more : List Char
  places : Option (List Char)
  exponent : Option Exponent
  isSign_sign : IsSign sign
  group_ne_nil : group ≠ []
  isDigit_group : group.all isDigit = true
  isDigitSeparator_separator : isDigitSeparator separator = true
  grouped_more : more.all (fun c => isDigit c || isDigitSeparator c) = true
  some_digit_more : more.filter isDigit ≠ []
  isDigit_places : ∀ digits ∈ places, digits.all isDigit = true

namespace GroupedAmount

variable (g : GroupedAmount)

def text : List Char :=
  g.sign ++ (g.group ++ g.separator :: (g.more ++ (pointText g.places ++ exponentText g.exponent)))

/-- The leading group as a numeral. -/
def leading : Numeral where
  sign := g.sign
  whole := g.group
  places := none
  exponent := none
  isSign_sign := g.isSign_sign
  isDigit_whole := g.isDigit_group
  isDigit_places := nofun
  some_digit := by simpa using g.group_ne_nil

/-- The amount without its separators. -/
def complete : Numeral where
  sign := g.sign
  whole := g.group ++ g.more.filter isDigit
  places := g.places
  exponent := g.exponent
  isSign_sign := g.isSign_sign
  isDigit_whole := by
    rw [List.all_append, g.isDigit_group, List.all_filter]
    simp
  isDigit_places := g.isDigit_places
  some_digit := by simp [g.group_ne_nil]

theorem text_leading : g.leading.text = g.sign ++ g.group := by
  simp [Numeral.text, leading, pointText, exponentText]

theorem text_complete : g.complete.text = g.leading.text ++
    (g.more.filter isDigit ++ (pointText g.places ++ exponentText g.exponent)) := by
  rw [text_leading]
  simp [Numeral.text, complete]

theorem text_eq : g.text = g.leading.text ++
    g.separator :: (g.more ++ (pointText g.places ++ exponentText g.exponent)) := by
  simp [text, text_leading]

/-- A grouped amount is made of the separators and the characters of the complete numeral. -/
theorem mem_text {c : Char} (hc : c ∈ g.text) :
    isDigitSeparator c = true ∨ c ∈ g.complete.text := by
  have hmore := List.all_eq_true.mp g.grouped_more
  rw [text_complete]
  simp only [text_eq, List.mem_append, List.mem_cons, List.mem_filter] at hc ⊢
  rcases hc with hc | rfl | hc | hc
  · exact .inr (.inl hc)
  · exact .inl g.isDigitSeparator_separator
  · rcases (Bool.or_eq_true _ _).mp (hmore c hc) with h | h
    · exact .inr (.inr (.inl ⟨hc, h⟩))
    · exact .inl h
  · exact .inr (.inr (.inr hc))

/-- Neither blanks nor quotes stand in a grouped amount. -/
theorem not_trimmed_of_mem_text {c : Char} (hc : c ∈ g.text) :
    isBlank c = false ∧ isAmountQuote c = false := by
  rcases g.mem_text hc with h | h
  · simp only [isDigitSeparator, Bool.or_eq_true, decide_eq_true_eq] at h
    rcases h with rfl | rfl <;> decide
  · exact ⟨g.complete.isBlank_of_mem_text h, g.complete.isAmountQuote_of_mem_text h⟩

theorem filter_text : g.text.filter (!isDigitSeparator ·) = g.complete.text := by
  have hkept : ∀ {cs : List Char}, (∀ c ∈ cs, c ∈ g.complete.text) →
      cs.filter (!isDigitSeparator ·) = cs := fun h => List.filter_eq_self.mpr fun c hc => by
    rw [g.complete.isDigitSeparator_of_mem_text (h c hc)]
    rfl
  have hmore : g.more.filter (!isDigitSeparator ·) = g.more.filter isDigit := by
    refine List.filter_congr fun c hc => ?_
    rcases (Bool.or_eq_true _ _).mp (List.all_eq_true.mp g.grouped_more c hc) with h | h
    · rw [h, isDigitSeparator_of_isDigit h]
      rfl
    · rw [h, isDigit_of_isDigitSeparator h]
      rfl
  have hmem := g.text_complete
  rw [text_eq, List.filter_append, List.filter_cons_of_neg (by simp [g.isDigitSeparator_separator]),
    List.filter_append, hmore, hkept, hkept, ← text_complete]
  · intro c hc
    rw [hmem]
    exact List.mem_append_right _ (List.mem_append_right _ hc)
  · intro c hc
    rw [hmem]
    exact List.mem_append_left _ hc

/-- The books read a grouped amount as the complete numeral. -/
theorem amountText_text : amountText g.text = g.complete.text := by
  have hblank : ∀ c ∈ g.text, isBlank c = false := fun c hc => (g.not_trimmed_of_mem_text hc).1
  have hquote : ∀ c ∈ g.text, isAmountQuote c = false :=
    fun c hc => (g.not_trimmed_of_mem_text hc).2
  rw [amountText, Text.trim_of_forall hblank,
    Text.dropWhile_of_head? fun c hc => hquote c (List.mem_of_mem_head? hc),
    Text.dropWhileRight_of_getLast? fun c hc => hquote c (List.mem_of_mem_getLast? hc),
    filter_text, Text.trim_of_forall fun _ hc => g.complete.isBlank_of_mem_text hc]

/-- The leading group is the longest numeral at the start of a grouped amount. -/
theorem isLongest_leading : g.leading.IsLongest g.text := by
  rw [text_eq]
  refine ⟨List.prefix_append _ _, fun m hm => ?_⟩
  rcases List.prefix_or_prefix_of_prefix hm (List.prefix_append _ _) with h | ⟨behind, hbehind⟩
  · exact h
  · -- a longer numeral would hold the separator
    rw [← hbehind, List.prefix_append_right_inj] at hm
    cases behind with
    | nil =>
      have hsame : m.text = g.leading.text := hbehind.symm.trans (List.append_nil _)
      exact hsame ▸ List.prefix_rfl
    | cons c rest =>
      obtain ⟨hc, -⟩ := List.cons_prefix_cons.mp hm
      have hnot := m.isDigitSeparator_of_mem_text (c := g.separator) (by simp [← hbehind, hc])
      rw [g.isDigitSeparator_separator] at hnot
      cases hnot

theorem isCut : IsCut (String.ofList g.text) g.leading g.complete := by
  have hblank : ∀ c ∈ g.text.head?, isBlank c = false :=
    fun c hc => (g.not_trimmed_of_mem_text (List.mem_of_mem_head? hc)).1
  have htrim : trimLeft g.text = g.text := Text.dropWhile_of_head? hblank
  constructor
  · rw [String.toList_ofList, Text.takeWhile_of_head? hblank]
    nofun
  · rw [String.toList_ofList, htrim]
    exact g.isLongest_leading
  · rw [String.toList_ofList]
    exact g.amountText_text
  · rw [text_complete]
    intro h
    exact g.some_digit_more (List.append_eq_nil_iff.mp (List.self_eq_append_right.mp h)).1

theorem decimal_leading : g.leading.decimal = ⟨g.sign = ['-'], valueOf g.group, 0⟩ :=
  congrArg (Decimal.mk _ · 0) (congrArg valueOf (List.append_nil g.group))

theorem decimal_complete (h : g.exponent = none) : g.complete.decimal =
    ⟨g.sign = ['-'], valueOf (g.group ++ (g.more.filter isDigit ++ g.places.getD [])),
      -((g.places.getD []).length : ℤ)⟩ := by
  simp [Numeral.decimal, complete, exponentValue, h]

/-- Each digit behind the leading group makes the amount ten times as large. -/
theorem le_valueOf_complete : 10 * valueOf g.group * 10 ^ (g.places.getD []).length ≤
    valueOf (g.group ++ (g.more.filter isDigit ++ g.places.getD [])) := by
  have hmore : 0 < (g.more.filter isDigit).length := List.length_pos_iff.mpr g.some_digit_more
  rw [valueOf_append, List.length_append]
  calc 10 * valueOf g.group * 10 ^ (g.places.getD []).length
      = 10 ^ (1 + (g.places.getD []).length) * valueOf g.group := by
        rw [pow_add, pow_one]
        ring
    _ ≤ 10 ^ ((g.more.filter isDigit).length + (g.places.getD []).length) * valueOf g.group :=
        Nat.mul_le_mul_right _ (Nat.pow_le_pow_right (by decide) (by omega))
    _ ≤ _ := Nat.le_add_right _ _

/-- A grouped amount without exponent is misread, unless its leading group is zero or out of
reach. -/
theorem not_readersAgree (hexponent : g.exponent = none) (hpos : 0 < valueOf g.group)
    (hfinite : g.leading.decimal.toBinary64.isFinite = true) :
    ¬ReadersAgree (String.ofList g.text) := by
  have hscale : 0 < valueOf g.group * 10 ^ (g.places.getD []).length :=
    Nat.mul_pos hpos (Nat.pow_pos (by decide))
  have hfar : 3 * valueOf g.group * 10 ^ (g.places.getD []).length <
      valueOf (g.group ++ (g.more.filter isDigit ++ g.places.getD [])) := by
    refine lt_of_lt_of_le ?_ g.le_valueOf_complete
    rw [mul_assoc, mul_assoc]
    omega
  rw [readersAgree_iff_forall_isCut]
  intro h
  have heq := h _ _ g.isCut
  rw [g.decimal_leading] at hfinite heq
  rw [g.decimal_complete hexponent] at heq
  exact Number.Decimal.toBinary64_ne _ hpos hfar hfinite heq

end GroupedAmount

/-! ### Agreement -/

/-- What the ledger reads of a text that is cut starts what the books read. -/
theorem IsCut.isPrefix {text : String} {n m : Numeral} (h : IsCut text n m) :
    n.text <+: m.text := by
  obtain ⟨rest, hrest⟩ := h.leading.starts
  rw [← h.amount, amountText_eq hrest.symm]
  exact List.prefix_append _ _

/-- **Two readers of amounts**: they agree on a text exactly if it is not cut or the cut does not
change the number, so they agree where no separator is. An amount with grouped digits is cut
behind its leading group, and unless it has an exponent, or its leading group is zero or out of
reach, they differ on it. -/
theorem readersAgree_iff (text : String) :
    (ReadersAgree text ↔
      ∀ n m, IsCut text n m → n.decimal.toBinary64 = m.decimal.toBinary64) ∧
    (∀ n m, IsCut text n m → n.text <+: m.text) ∧
    (',' ∉ text.toList → '_' ∉ text.toList → ReadersAgree text) ∧
    ∀ g : GroupedAmount, text = String.ofList g.text → IsCut text g.leading g.complete ∧
      (g.exponent = none → 0 < valueOf g.group →
        g.leading.decimal.toBinary64.isFinite = true → ¬ReadersAgree text) := by
  refine ⟨readersAgree_iff_forall_isCut text, fun _ _ => IsCut.isPrefix, fun hcomma hline => ?_, ?_⟩
  · have hnone : ∀ c ∈ text.toList, isDigitSeparator c = false := by
      intro c hc
      have hne : c ≠ ',' ∧ c ≠ '_' :=
        ⟨ne_of_mem_of_not_mem hc hcomma, ne_of_mem_of_not_mem hc hline⟩
      simp [isDigitSeparator, hne]
    exact (readersAgree_iff_forall_isCut text).mpr fun n m h => absurd h (not_isCut hnone n m)
  · rintro g rfl
    exact ⟨g.isCut, g.not_readersAgree⟩

/-- An amount of one thousand, two hundred fifty and a half. -/
def groupedThousand : GroupedAmount where
  sign := []
  group := ['1']
  separator := ','
  more := "250".toList
  places := some "50".toList
  exponent := none
  isSign_sign := .inl rfl
  group_ne_nil := by decide
  isDigit_group := by decide
  isDigitSeparator_separator := by decide
  grouped_more := by decide
  some_digit_more := by decide
  isDigit_places := by
    rintro digits hdigits
    obtain rfl := Option.some.inj hdigits
    decide

theorem readersAgree_four_and_not_thousand :
    ReadersAgree "-4.00" ∧ ¬ReadersAgree "1,250.50" :=
  ⟨(readersAgree_iff "-4.00").2.2.1 (by decide) (by decide),
    ((readersAgree_iff "1,250.50").2.2.2 groupedThousand (by decide)).2 rfl (by decide)
      (by decide +kernel)⟩

/-- The ledger reads one of an amount of one thousand, two hundred fifty and a half. -/
theorem not_forall_readersAgree :
    leadingNumber "1,250.50" = .ok (some (.float (.ofInt 1))) ∧
      readAmount? "1,250.50" = some (.ofRatio false 2501 2) ∧ ¬∀ text, ReadersAgree text := by
  have hledger : leadingNumber "1,250.50" = .ok (some (.float (.ofInt 1))) := by decide +kernel
  have hbooks : readAmount? "1,250.50" = some (.ofRatio false 2501 2) := by decide +kernel
  refine ⟨hledger, hbooks, fun h => ?_⟩
  exact absurd (h _ _ _ hledger hbooks) (by decide +kernel)

end NoteGraph.Ledger
