import NoteGraph.Ledger.OfText
import NoteGraph.Proofs.Calendar.IsoText
import NoteGraph.Proofs.Ledger.Amount

/-!
# Lines of a ledger as they are written

An account is declared by its name and a plain fraction, a transaction is a row of cells between
bars, and a report is asked for by words. Each of these lines says what it was written for, and
nothing else: the separator and the header of a table, comments and the divider look different.
-/

namespace NoteGraph.Ledger

open Text

/-! ### Declarations -/

/-- An account as it is declared. -/
structure Declaration where
  name : List Char
  opening : PlainFraction
  trim_name : trim name = name
  name_ne_nil : name ≠ []
  isLine_name : IsLine name

namespace Declaration

/-- The account that is declared. -/
def account (a : Declaration) : Account Number := ⟨String.ofList a.name, a.opening.value⟩

/-- The line that declares an account. -/
def line (a : Declaration) : List Char :=
  "@account".toList ++ ' ' :: (a.name ++ ' ' :: a.opening.text)

theorem finalAmount?_opening (x : PlainFraction) : finalAmount? (' ' :: x.text) = some x.value := by
  have hdrop : (' ' :: x.text).dropWhile isBlank = x.text := by
    rw [List.dropWhile_cons_of_pos rfl]
    exact dropWhile_of_head? fun c hc => x.isBlank_of_mem_text (List.mem_of_mem_head? hc)
  simp [finalAmount?, hdrop, x.isPlainFraction_text, x.readNumeral?_text, PlainFraction.value,
    isBlank]

/-- What follows a name is not read from an earlier place on: a blank would be left in it. -/
theorem finalAmount?_eq_none {s : List Char} (hs : s ≠ []) (h : ∀ c ∈ s.getLast?, isBlank c = false)
    (rest : List Char) : finalAmount? (s ++ ' ' :: rest) = none := by
  have hdrop : s.dropWhile isBlank ≠ [] := by
    intro hnil
    have hblank := List.dropWhile_eq_nil_iff.mp hnil _ (List.getLast_mem hs)
    rw [h _ (List.getLast?_eq_some_getLast hs)] at hblank
    cases hblank
  have hnot : isPlainFraction (s.dropWhile isBlank ++ ' ' :: rest) = false := by
    by_contra hplain
    have := isBlank_of_isPlainFraction (eq_true_of_ne_false hplain) ' ' (by simp)
    cases this
  rw [finalAmount?, (dropWhile_append_of_ne_nil hdrop _).1]
  simp [hnot]

theorem ofLine?_line (a : Declaration) : Account.ofLine? a.line = some a.account := by
  obtain ⟨hhead, hlast⟩ := trim_eq_self_iff.mp a.trim_name
  have hin : a.name.all inLine = true :=
    List.all_eq_true.mpr fun d hd => bne_iff_ne.mpr fun heq => a.isLine_name (heq ▸ hd)
  have hsome : someBefore? inLine finalAmount? (a.name ++ ' ' :: a.opening.text) =
      some (a.name, a.opening.value) := by
    refine someBefore?_append a.name_ne_nil hin (finalAmount?_opening a.opening) ?_
    rintro s hs ⟨front, hfront⟩
    refine finalAmount?_eq_none hs (fun d hd => hlast d ?_) _
    rwa [← hfront, List.getLast?_append_of_ne_nil _ hs]
  have hrests : restsAfterSome isBlank (' ' :: (a.name ++ ' ' :: a.opening.text)) =
      [a.name ++ ' ' :: a.opening.text] := by
    refine restsAfterSome_cons rfl fun c hc => hhead c ?_
    rwa [List.head?_append_of_ne_nil _ a.name_ne_nil] at hc
  have hmark : after? "@account".toList a.line = some (' ' :: (a.name ++ ' ' :: a.opening.text)) :=
    after?_eq_some_iff.mpr rfl
  rw [Account.ofLine?, hmark, Option.bind_some, hrests, List.findSome?_singleton, hsome]
  rfl

end Declaration

/-! ### Rows of cells -/

/-- A cell with a space on both sides. -/
def spaced (cell : List Char) : List Char := ' ' :: (cell ++ [' '])

/-- A row of cells between bars. -/
def row (cells : List (List Char)) : List Char :=
  '|' :: cells.flatMap fun cell => spaced cell ++ ['|']

theorem trim_spaced (cell : List Char) : trim (spaced cell) = trim cell :=
  (trim_space_cons _).trans (trim_append cell isTail_space)

theorem flatMap_spaced {cells : List (List Char)} (h : cells ≠ []) :
    (cells.flatMap fun cell => spaced cell ++ ['|']) =
      ['|'].intercalate (cells.map spaced) ++ ['|'] := by
  induction cells with
  | nil => exact absurd rfl h
  | cons cell rest ih =>
    cases rest with
    | nil => simp
    | cons next more =>
      rw [List.flatMap_cons, ih (List.cons_ne_nil _ _)]
      simp [List.intercalate_cons_cons]

/-- What follows the first bar of a row. -/
theorem after?_row {cells : List (List Char)} (h : cells ≠ []) : after? ['|'] (row cells) =
    some (['|'].intercalate (cells.map spaced) ++ ['|']) :=
  after?_eq_some_iff.mpr (congrArg ('|' :: ·) (flatMap_spaced h))

theorem intercalate_ne_nil {cells : List (List Char)} (h : cells ≠ []) :
    ['|'].intercalate (cells.map spaced) ≠ [] := by
  obtain ⟨cell, rest, rfl⟩ := List.exists_cons_of_ne_nil h
  cases rest <;> simp [List.intercalate_cons_cons, spaced]

/-- The cells of a row on one line are read again. -/
theorem cells?_row {cells : List (List Char)} (h : cells ≠ [])
    (hcells : ∀ cell ∈ cells, trim cell = cell ∧ '|' ∉ cell) (hline : IsLine (row cells)) :
    cells? (row cells) = some cells := by
  have hafter := after?_row h
  have hinner := oneLine?_eq (hline.suffix (suffix_of_after? hafter))
  have hsplit : (['|'].intercalate (cells.map spaced)).splitOn '|' = cells.map spaced := by
    refine List.splitOn_intercalate '|' (fun padded hpadded => ?_) (by simpa using h)
    obtain ⟨cell, hcell, rfl⟩ := List.mem_map.mp hpadded
    simpa [spaced] using (hcells cell hcell).2
  have htrim : (cells.map spaced).map trim = cells := by
    rw [List.map_map]
    refine (List.map_congr_left fun cell hcell => ?_).trans (List.map_id cells)
    exact (trim_spaced cell).trans (hcells cell hcell).1
  rw [cells?, hafter, Option.bind_some, hinner]
  simp only [List.getLast?_append, List.getLast?_singleton, Option.some_or, List.dropLast_concat,
    decide_true, Bool.true_and, List.isEmpty_eq_false_iff.mpr (intercalate_ne_nil h),
    Bool.not_false,
    if_true, hsplit, htrim]

/-- A row with a character that no separator has is no separator. -/
theorem isSeparator_row {cells : List (List Char)} {cell : List Char} (hcell : cell ∈ cells)
    {c : Char}
    (hc : c ∈ cell) (hmark : isBlank c = false ∧ c ≠ '-' ∧ c ≠ ':' ∧ c ≠ '|') :
    isSeparator (row cells) = false := by
  have hne := List.ne_nil_of_mem hcell
  have hmem : c ∈ ['|'].intercalate (cells.map spaced) := by
    have hall : c ∈ cells.flatMap fun cell => spaced cell ++ ['|'] :=
      List.mem_flatMap.mpr ⟨cell, hcell, by simp [spaced, hc]⟩
    rw [flatMap_spaced hne] at hall
    simpa [hmark.2.2.2] using hall
  rw [isSeparator, after?_row hne]
  simp only [List.dropLast_concat, Bool.and_eq_false_iff]
  right
  rw [List.all_eq_false]
  exact ⟨c, hmem, by simp [hmark]⟩

/-! ### Bookings -/

/-- The name of an account as a cell can hold it beside another one. -/
structure IsAccountName (cs : List Char) : Prop where
  trim_eq : trim cs = cs
  ne_nil : cs ≠ []
  bar_notMem : '|' ∉ cs
  no_arrow : ¬['-', '>'] <:+: cs

/-- A transaction as it is written in a row. -/
structure Booking where
  date : Date
  description : List Char
  amount : PlainFraction
  account : List Char
  target : Option (List Char)
  tags : List (List Char)
  valid_date : date.Valid
  trim_description : trim description = description
  bar_notMem_description : '|' ∉ description
  isAccountName_account : IsAccountName account
  isAccountName_target : ∀ t ∈ target, IsAccountName t
  tags_plain : ∀ tag ∈ tags, ∀ c ∈ tag, isBlank c = false ∧ c ≠ '|'

namespace Booking

/-- The transaction that is written, in the line with a number. -/
def transaction (b : Booking) (number : ℕ) : Transaction Number where
  date := b.date.isoText
  description := String.ofList b.description
  amount := b.amount.value
  account := String.ofList b.account
  target := b.target.map String.ofList
  categories := b.tags.map String.ofList
  line := some number

/-- The cell of the accounts: an arrow leads to the target. -/
def accountCell (b : Booking) : List Char :=
  match b.target with
  | some target => b.account ++ ' ' :: '-' :: '>' :: ' ' :: target
  | none => b.account

/-- The tags as words that start with a hash. -/
def tagWords (tags : List (List Char)) : List (List Char) := tags.map ('#' :: ·)

/-- The cells of the row of a transaction. -/
def cells (b : Booking) : List (List Char) :=
  [b.date.isoText.toList, b.description, b.amount.text, b.accountCell,
    [' '].intercalate (tagWords b.tags)]

/-- The row of a transaction. -/
def line (b : Booking) : List Char := row b.cells

variable (b : Booking)

/-! #### Dates -/

theorem isDate_isoText {d : Date} (h : d.Valid) : isDate d.isoText.toList = true := by
  obtain ⟨hyear, hmonth, hday⟩ := h.lt
  obtain ⟨y₁, y₂, y₃, y₄, hy⟩ := List.length_eq_four.mp (Date.length_padded (by decide) hyear)
  obtain ⟨m₁, m₂, hm⟩ := List.length_eq_two.mp (Date.length_padded (by decide) hmonth)
  obtain ⟨d₁, d₂, hd⟩ := List.length_eq_two.mp (Date.length_padded (by decide) hday)
  have hcs : d.isoText.toList = [y₁, y₂, y₃, y₄, '-', m₁, m₂, '-', d₁, d₂] := by
    rw [Date.toList_isoText, hy, hm, hd]
    rfl
  have hread : Date.read (String.ofList d.isoText.toList) = .ok d := by
    rw [String.ofList_toList, Date.read_isoText h]
  rw [hcs] at hread ⊢
  rw [isDate, hread]
  rfl

theorem exists_digit_isoText {d : Date} (h : d.Valid) :
    ∃ c rest, d.isoText.toList = c :: rest ∧ Number.isPlainDigit c = true := by
  have hyear := h.lt.1
  have hlength := Date.length_padded (by decide) hyear
  have hall := Date.all_padded 4 d.year
  rw [Date.toList_isoText]
  cases hcs : (Date.padded 4 d.year).toList with
  | nil =>
    rw [hcs] at hlength
    cases hlength
  | cons c rest =>
    rw [hcs, List.all_cons, Bool.and_eq_true] at hall
    exact ⟨c, _, rfl, hall.1⟩

theorem isBlank_of_isPlainDigit {c : Char} (hc : Number.isPlainDigit c = true) :
    isBlank c = false ∧ c ≠ '|' := by
  have hrange := Number.toNat_of_isPlainDigit hc
  refine ⟨?_, ?_⟩
  · simp [isBlank]
    omega
  · rintro rfl
    exact absurd hrange (by decide)

/-- The first cell of a header row does not start with a digit. -/
theorem isHeader_of_isPlainDigit {c : Char} (hc : Number.isPlainDigit c = true)
    (first : List Char) (cells : List (List Char)) : isHeader ((c :: first) :: cells) = false := by
  have hrange := Number.toNat_of_isPlainDigit hc
  have hne : ∀ d : Char, d.toNat < 48 ∨ 57 < d.toNat → c ≠ d := by
    rintro d hd rfl
    omega
  have hchar : lowerChar c = c := by
    rw [lowerChar, if_pos (by omega), if_neg (by simp; omega)]
  have hlower : lower (c :: first) = c :: lowerAfter [c] first := by
    rw [lower, lowerAfter, if_neg (hne _ (by decide)), if_neg (hne _ (by decide)), hchar]
    rfl
  have hwords : lower (c :: first) ∉ headerWords := by
    rw [hlower]
    simp [headerWords, hne 'd' (by decide), hne 'a' (by decide)]
  simp [isHeader, hwords]

/-! #### Arrows -/

theorem cutArrow?_eq_none {cs : List Char} (h : ¬['-', '>'] <:+: cs) : cutArrow? cs = none := by
  induction cs with
  | nil => rfl
  | cons c rest ih =>
    have hrest : ¬['-', '>'] <:+: rest :=
      fun harrow => h (harrow.trans (List.suffix_cons c rest).isInfix)
    have hnone : after? ['-', '>'] rest = none := by
      cases hafter : after? ['-', '>'] rest with
      | none => rfl
      | some more =>
        rw [after?_eq_some_iff] at hafter
        exact absurd ⟨[], more, hafter.symm⟩ hrest
    rw [cutArrow?, hnone, ih hrest]
    rfl

theorem cutArrow?_append {source : List Char} (h : ¬['-', '>'] <:+: source) (target : List Char) :
    cutArrow? (source ++ ' ' :: '-' :: '>' :: ' ' :: target) =
      some (source ++ [' '], ' ' :: target) := by
  induction source with
  | nil => rfl
  | cons c rest ih =>
    have hrest : ¬['-', '>'] <:+: rest :=
      fun harrow => h (harrow.trans (List.suffix_cons c rest).isInfix)
    have hnone : after? ['-', '>'] (rest ++ ' ' :: '-' :: '>' :: ' ' :: target) = none := by
      cases hafter : after? ['-', '>'] (rest ++ ' ' :: '-' :: '>' :: ' ' :: target) with
      | none => rfl
      | some more =>
        exfalso
        rw [after?_eq_some_iff] at hafter
        -- an arrow at the front would have to stand in the source, which ends before the space
        match rest, hafter with
        | [], hafter => cases hafter
        | [_], hafter => cases hafter
        | d :: e :: rest, hafter =>
          obtain ⟨hd, he, -⟩ := by simpa using hafter
          exact hrest ⟨[], rest, by rw [hd, he]; rfl⟩
    rw [List.cons_append, cutArrow?, hnone, ih hrest]
    rfl

/-- The account and the target of an account cell. -/
theorem cutArrow?_accountCell : cutArrow? b.accountCell =
    b.target.map fun target => (b.account ++ [' '], ' ' :: target) := by
  have hnone := b.isAccountName_account.no_arrow
  rw [accountCell]
  cases b.target with
  | none => exact cutArrow?_eq_none hnone
  | some target => exact cutArrow?_append hnone target

/-! #### Tags -/

theorem isWord_tagWords {tags : List (List Char)} (h : ∀ tag ∈ tags, ∀ c ∈ tag, isBlank c = false) :
    ∀ w ∈ tagWords tags, IsWord w := by
  intro w hw
  obtain ⟨tag, htag, rfl⟩ := List.mem_map.mp hw
  exact ⟨List.cons_ne_nil _ _, List.forall_mem_cons.mpr ⟨rfl, h tag htag⟩⟩

theorem tags_intercalate {tags : List (List Char)}
    (h : ∀ tag ∈ tags, ∀ c ∈ tag, isBlank c = false) :
    Ledger.tags ([' '].intercalate (tagWords tags)) = tags.map String.ofList := by
  have hafter : ∀ tag : List Char, after? ['#'] ('#' :: tag) = some tag :=
    fun tag => after?_eq_some_iff.mpr rfl
  rw [Ledger.tags, words_intercalate (isWord_tagWords h), tagWords, List.filterMap_map]
  simp [hafter]

/-! #### Rows -/

theorem isBlank_of_mem_tag {tag : List Char} (h : tag ∈ b.tags) : ∀ c ∈ tag, isBlank c = false :=
  fun c hc => (b.tags_plain tag h c hc).1

theorem accountCell_plain : trim b.accountCell = b.accountCell ∧ '|' ∉ b.accountCell := by
  obtain ⟨htrim, hne, hbar, -⟩ := b.isAccountName_account
  rw [accountCell]
  cases htarget : b.target with
  | none => exact ⟨htrim, hbar⟩
  | some target =>
    obtain ⟨htrim', hne', hbar', -⟩ := b.isAccountName_target target htarget
    refine ⟨trim_eq_self_iff.mpr ⟨fun c hc => ?_, fun c hc => ?_⟩, by simp [hbar, hbar']⟩
    · rw [List.head?_append_of_ne_nil _ hne] at hc
      exact (trim_eq_self_iff.mp htrim).1 c hc
    · have hlast :
          (b.account ++ ' ' :: '-' :: '>' :: ' ' :: target).getLast? = target.getLast? := by
        have hsplit : b.account ++ ' ' :: '-' :: '>' :: ' ' :: target =
            (b.account ++ [' ', '-', '>', ' ']) ++ target := by simp
        rw [hsplit, List.getLast?_append_of_ne_nil _ hne']
      rw [hlast] at hc
      exact (trim_eq_self_iff.mp htrim').2 c hc

theorem cells_plain : ∀ cell ∈ b.cells, trim cell = cell ∧ '|' ∉ cell := by
  have hwords := isWord_tagWords fun tag htag => b.isBlank_of_mem_tag htag
  simp only [cells, List.forall_mem_cons]
  refine ⟨?_, ⟨b.trim_description, b.bar_notMem_description⟩, ?_, b.accountCell_plain,
    ⟨trim_intercalate hwords, ?_⟩, List.forall_mem_nil _⟩
  · have hchars : ∀ c ∈ b.date.isoText.toList, isBlank c = false ∧ c ≠ '|' := by
      intro c hc
      rcases Date.isPlainDigit_or_dash hc with hdigit | rfl
      · exact isBlank_of_isPlainDigit hdigit
      · decide
    exact ⟨trim_of_forall fun c hc => (hchars c hc).1, fun hc => (hchars _ hc).2 rfl⟩
  · refine ⟨trim_of_forall fun c hc => b.amount.isBlank_of_mem_text hc, fun hc => ?_⟩
    rcases b.amount.mem_text hc with h | h | h | h
    · exact absurd h (by decide +kernel)
    all_goals exact absurd h (by decide)
  · intro hc
    rcases mem_intercalate hc with h | ⟨w, hw, hc⟩
    · exact absurd h (by decide)
    · obtain ⟨tag, htag, rfl⟩ := List.mem_map.mp hw
      rcases List.mem_cons.mp hc with h | hc
      · exact absurd h (by decide)
      · exact (b.tags_plain tag htag _ hc).2 rfl

theorem ofLine?_line (hline : IsLine b.line) (number : ℕ) :
    Transaction.ofLine? b.line (some number) = some (b.transaction number) := by
  have hcells : cells? b.line = some b.cells :=
    cells?_row (List.cons_ne_nil _ _) b.cells_plain hline
  have htags := tags_intercalate fun tag htag => b.isBlank_of_mem_tag htag
  have hspace : trim (b.account ++ [' ']) = b.account := by
    rw [trim_append _ isTail_space, b.isAccountName_account.trim_eq]
  unfold Transaction.ofLine?
  rw [hcells, cells]
  simp only [isDate_isoText b.valid_date, if_true, b.amount.leadingNumber_text,
    b.cutArrow?_accountCell, String.ofList_toList, List.flatMap_cons, List.flatMap_nil,
    List.append_nil, htags, transaction]
  cases htarget : b.target with
  | none => simp [accountCell, htarget]
  | some target =>
    have htrim := (b.isAccountName_target target htarget).trim_eq
    simp [hspace, trimmed, trim_space_cons, htrim]

end Booking

/-! ### Reports -/

namespace Directive

/-- A report whose categories can be written as words. -/
def IsPlain : Directive → Prop
  | summary categories => ∀ category ∈ categories, ∀ c ∈ category.toList, isBlank c = false
  | _ => True

/-- The words that ask for a report. -/
def words : Directive → List (List Char)
  | balance => ["balance".toList]
  | summary categories => "summary".toList :: Booking.tagWords (categories.map String.toList)
  | chart kind subject => ["chart".toList, kind.name.toList, subject.name.toList]

/-- The line that asks for a report. -/
def line (d : Directive) : List Char := [' '].intercalate d.words

variable {d : Directive}

theorem isWord_words (h : d.IsPlain) : ∀ w ∈ d.words, IsWord w := by
  have hword : ∀ w ∈ ["balance", "summary", "chart", "pie", "bar", "daily", "weekly", "monthly",
      "categories"].map String.toList, IsWord w := by decide +kernel
  cases d with
  | balance => exact List.forall_mem_singleton.mpr (hword _ (by decide))
  | summary categories =>
    refine List.forall_mem_cons.mpr
      ⟨hword _ (by decide), Booking.isWord_tagWords fun tag htag => ?_⟩
    obtain ⟨category, hcategory, rfl⟩ := List.mem_map.mp htag
    exact h category hcategory
  | chart kind subject =>
    simp only [words, List.forall_mem_cons]
    refine ⟨hword _ (by decide), ?_, ?_, List.forall_mem_nil _⟩
    · cases kind <;> exact hword _ (by decide)
    · cases subject <;> exact hword _ (by decide)

theorem ofLine?_line (h : d.IsPlain) : Directive.ofLine? d.line = some d := by
  rw [Directive.ofLine?, line, words_intercalate (isWord_words h)]
  cases d with
  | balance => rfl
  | summary categories =>
    have htag : ∀ category ∈ categories, Ledger.tags ('#' :: category.toList) = [category] := by
      intro category hcategory
      have htags := Booking.tags_intercalate (List.forall_mem_singleton.mpr (h category hcategory))
      simpa [Booking.tagWords] using htags
    have hcategories :
        (((Booking.tagWords (categories.map String.toList)).map String.ofList).flatMap
        fun word => Ledger.tags word.toList) = categories := by
      rw [Booking.tagWords, List.map_map, List.map_map, List.flatMap_map]
      calc (categories.flatMap fun category =>
            Ledger.tags (String.ofList ('#' :: category.toList)).toList)
          = categories.flatMap fun category => [category] :=
            List.flatMap_congr fun category hcategory => by
              rw [String.toList_ofList, htag category hcategory]
        _ = categories := List.flatMap_singleton' categories
    rw [words, List.map_cons, String.ofList_toList]
    exact congrArg (fun categories => some (summary categories)) hcategories
  | chart kind subject => cases kind <;> cases subject <;> decide +kernel

end Directive

/-! ### What the lines say -/

/-- A line that starts with neither a hash nor a dash is no comment and no divider. -/
theorem Line.read_of_head? {raw : List Char} {c : Char} (hc : (trim raw).head? = some c)
    (hmark : c ≠ '#' ∧ c ≠ '-') (divided : Bool) (number : ℕ) : Line.read divided number raw =
      if divided then Line.ofRequest number (trim raw) else Line.ofEntry number (trim raw) := by
  obtain ⟨rest, hraw⟩ := List.head?_eq_some_iff.mp hc
  have hcomment : isComment (c :: rest) = false := by
    simp [isComment, after?, hmark.1.symm]
  simp [Line.read, hraw, hcomment, hmark.2]

theorem Declaration.read_line (a : Declaration) (number : ℕ) :
    Line.read false number a.line = .account a.account := by
  have htrim : trim a.line = a.line := by
    refine trim_eq_self_iff.mpr ⟨fun c hc => ?_, fun c hc => a.opening.isBlank_of_mem_text ?_⟩
    · obtain rfl := Option.some.inj hc
      rfl
    · have hsplit (mark : List Char) : mark ++ ' ' :: (a.name ++ ' ' :: a.opening.text) =
          (mark ++ ' ' :: (a.name ++ [' '])) ++ a.opening.text := by simp
      have hlast : a.line.getLast? = a.opening.text.getLast? :=
        (congrArg List.getLast? (hsplit _)).trans
          (List.getLast?_append_of_ne_nil _ a.opening.text_ne_nil)
      exact List.mem_of_mem_getLast? (hlast ▸ hc)
  have hhead : a.line.head? = some '@' := rfl
  have hseparator : isSeparator a.line = false := rfl
  rw [Line.read_of_head? (htrim.symm ▸ hhead) (by decide), htrim, if_neg Bool.false_ne_true,
    Line.ofEntry, hseparator, if_neg Bool.false_ne_true, a.ofLine?_line]

theorem Booking.read_line (b : Booking) (hline : IsLine b.line) (number : ℕ) :
    Line.read false number b.line = .transaction (b.transaction number) := by
  obtain ⟨c, rest, hdate, hc⟩ := exists_digit_isoText b.valid_date
  have htrim : trim b.line = b.line := by
    refine trim_eq_self_iff.mpr ⟨fun c hc => ?_, fun c hc => ?_⟩
    · obtain rfl := Option.some.inj hc
      rfl
    · have hcells : b.cells ≠ [] := List.cons_ne_nil _ _
      rw [line, row, flatMap_spaced hcells, ← List.cons_append, List.getLast?_concat] at hc
      obtain rfl := Option.some.inj hc
      rfl
  have hhead : b.line.head? = some '|' := rfl
  have hseparator : isSeparator b.line = false := by
    have hmem : c ∈ b.date.isoText.toList := hdate ▸ List.mem_cons_self
    obtain ⟨hblank, hbar⟩ := isBlank_of_isPlainDigit hc
    refine isSeparator_row List.mem_cons_self hmem ⟨hblank, ?_, ?_, hbar⟩
    all_goals
      rintro rfl
      exact absurd hc (by decide)
  have hcells : cells? b.line = some b.cells :=
    cells?_row (List.cons_ne_nil _ _) b.cells_plain hline
  have hheader : (cells? b.line).any isHeader = false := by
    rw [hcells, Option.any_some, cells, hdate, isHeader_of_isPlainDigit hc]
  have haccount : Account.ofLine? b.line = none := rfl
  rw [Line.read_of_head? (htrim.symm ▸ hhead) (by decide), htrim, if_neg Bool.false_ne_true,
    Line.ofEntry, hseparator, if_neg Bool.false_ne_true, haccount, hheader, b.ofLine?_line hline]
  rfl

theorem Directive.read_line {d : Directive} (h : d.IsPlain) (number : ℕ) :
    Line.read true number d.line = .directive d := by
  have htrim : trim d.line = d.line := trim_intercalate (Directive.isWord_words h)
  obtain ⟨c, hc, hmark⟩ : ∃ c, d.line.head? = some c ∧ c ≠ '#' ∧ c ≠ '-' := by
    cases d with
    | balance => exact ⟨'b', rfl, by decide⟩
    | summary categories =>
      refine ⟨'s', ?_, by decide⟩
      rw [Directive.line, Directive.words]
      cases Booking.tagWords (categories.map String.toList) <;> rfl
    | chart kind subject => exact ⟨'c', rfl, by decide⟩
  rw [Line.read_of_head? (htrim.symm ▸ hc) hmark, htrim, if_pos rfl, Line.ofRequest,
    Directive.ofLine?_line h]

end NoteGraph.Ledger
