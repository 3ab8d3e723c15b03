import Mathlib.Data.String.Basic
import NoteGraph.Calendar.IsoText

/-!
# Dates as they are written

The three numbers of a date are written with digits of fixed width, so that a date that the
calendar has is read back from its text, and later days have later texts.
-/

namespace NoteGraph

/-! ### Runs of digits -/

namespace Number

theorem digitsValue_cons (c : Char) (rest : List Char) : digitsValue (c :: rest) =
    10 ^ rest.length * (c.toNat - 48) + digitsValue rest := by
  have h : digitsValue (c :: rest) = Nat.ofDigitChars 10 rest (10 * 0 + (c.toNat - 48)) := rfl
  rw [h, Nat.ofDigitChars_eq_ofDigitChars_zero, Nat.mul_zero, Nat.zero_add]
  rfl

theorem toNat_of_isPlainDigit {c : Char} (h : isPlainDigit c = true) :
    48 ≤ c.toNat ∧ c.toNat ≤ 57 := by
  simp only [isPlainDigit, Bool.and_eq_true, decide_eq_true_eq] at h
  exact ⟨h.1, h.2⟩

theorem digitsValue_lt {cs : List Char} (h : cs.all isPlainDigit = true) :
    digitsValue cs < 10 ^ cs.length := by
  induction cs with
  | nil => exact Nat.one_pos
  | cons c rest ih =>
    obtain ⟨hc, hrest⟩ := by simpa only [List.all_cons, Bool.and_eq_true] using h
    have hvalue : c.toNat - 48 ≤ 9 := by
      have := toNat_of_isPlainDigit hc
      omega
    have hpow := Nat.mul_le_mul_left (10 ^ rest.length) hvalue
    have hlt := ih hrest
    rw [digitsValue_cons, List.length_cons, pow_succ]
    omega

/-- Of two runs of equally many digits the one with the smaller value comes first, whatever
follows them. -/
theorem append_lt_of_digitsValue_lt {x : List Char} : ∀ {y : List Char}, x.length = y.length →
    x.all isPlainDigit = true → y.all isPlainDigit = true → digitsValue x < digitsValue y →
      ∀ v w : List Char, x ++ v < y ++ w := by
  induction x with
  | nil =>
    intro y hlength _ _ hlt
    obtain rfl := List.length_eq_zero_iff.mp hlength.symm
    exact absurd hlt (lt_irrefl _)
  | cons c x ih =>
    intro y hlength hx hy hlt v w
    cases y with
    | nil => cases hlength
    | cons d y =>
      have hlength' : x.length = y.length := Nat.succ.inj hlength
      obtain ⟨hc, hx⟩ := by simpa only [List.all_cons, Bool.and_eq_true] using hx
      obtain ⟨hd, hy'⟩ := by simpa only [List.all_cons, Bool.and_eq_true] using hy
      rw [digitsValue_cons, digitsValue_cons, hlength'] at hlt
      rw [List.cons_append, List.cons_append, List.cons_lt_cons_iff]
      have hcd : c.toNat ≤ d.toNat := by
        by_contra hdc
        have hsucc : d.toNat - 48 + 1 ≤ c.toNat - 48 := by
          have := toNat_of_isPlainDigit hd
          omega
        have hmul := Nat.mul_le_mul_left (10 ^ y.length) hsucc
        have hbound := digitsValue_lt hy'
        rw [Nat.mul_add, Nat.mul_one] at hmul
        omega
      rcases Nat.lt_or_eq_of_le hcd with hlt' | heq
      · exact Or.inl hlt'
      · obtain rfl := Char.toNat_inj.mp heq
        exact Or.inr ⟨rfl, ih hlength' hx hy' (by omega) v w⟩

/-- A run of digits is told from others of its length by its value. -/
theorem eq_of_digitsValue_eq {x : List Char} : ∀ {y : List Char}, x.length = y.length →
    x.all isPlainDigit = true → y.all isPlainDigit = true → digitsValue x = digitsValue y →
      x = y := by
  induction x with
  | nil =>
    intro y hlength _ _ _
    exact (List.length_eq_zero_iff.mp hlength.symm).symm
  | cons c x ih =>
    intro y hlength hx hy heq
    cases y with
    | nil => cases hlength
    | cons d y =>
      have hlength' : x.length = y.length := Nat.succ.inj hlength
      obtain ⟨hc, hx⟩ := by simpa only [List.all_cons, Bool.and_eq_true] using hx
      obtain ⟨hd, hy⟩ := by simpa only [List.all_cons, Bool.and_eq_true] using hy
      rw [digitsValue_cons, digitsValue_cons, hlength'] at heq
      have hlt := digitsValue_lt hx
      have hlt' := digitsValue_lt hy
      rw [hlength'] at hlt
      -- the first digit is the quotient and the other digits make up the remainder
      have hdiv := congrArg (· / 10 ^ y.length) heq
      have hmod := congrArg (· % 10 ^ y.length) heq
      simp only [Nat.mul_add_div (Nat.pow_pos (by decide : 0 < 10)), Nat.div_eq_of_lt hlt,
        Nat.div_eq_of_lt hlt', Nat.add_zero] at hdiv
      simp only [Nat.mul_add_mod, Nat.mod_eq_of_lt hlt, Nat.mod_eq_of_lt hlt'] at hmod
      have hcd : c.toNat = d.toNat := by
        have := toNat_of_isPlainDigit hc
        have := toNat_of_isPlainDigit hd
        omega
      rw [Char.toNat_inj.mp hcd, ih hlength' hx hy hmod]

end Number

namespace Date

open Number (isPlainDigit digitsValue)

/-! ### Numbers of fixed width -/

theorem toList_padded (width n : ℕ) : (padded width n).toList =
    List.replicate (width - (Nat.toDigits 10 n).length) '0' ++ Nat.toDigits 10 n := by
  rw [padded, String.toList_ofList]
  rfl

theorem digitsValue_padded (width n : ℕ) : digitsValue (padded width n).toList = n := by
  have h : digitsValue (padded width n).toList =
      Nat.ofDigitChars 10 (padded width n).toList 0 := rfl
  rw [h, toList_padded, Nat.ofDigitChars_append, Nat.ofDigitChars_replicate_zero, Nat.mul_zero,
    Nat.ofDigitChars_ten_toDigits]

theorem all_padded (width n : ℕ) : (padded width n).toList.all isPlainDigit = true := by
  rw [toList_padded, List.all_append, Bool.and_eq_true]
  refine ⟨by simp [isPlainDigit], List.all_eq_true.mpr fun c hc => ?_⟩
  exact Nat.isDigit_of_mem_toDigits (by decide) (by decide) hc

theorem length_padded {width n : ℕ} (hwidth : 0 < width) (h : n < 10 ^ width) :
    (padded width n).toList.length = width := by
  have hle := (Nat.length_toDigits_le_iff (by decide) hwidth).mpr h
  rw [toList_padded, List.length_append, List.length_replicate]
  omega

/-- A number is read back from as many digits as it is written with. -/
theorem cutDigits?_padded {width n : ℕ} (hwidth : 0 < width) (h : n < 10 ^ width)
    (rest : List Char) : cutDigits? width ((padded width n).toList ++ rest) = some (n, rest) := by
  have hlength := length_padded hwidth h
  simp [cutDigits?, List.take_left' hlength, List.drop_left' hlength, hlength, all_padded,
    digitsValue_padded]

theorem isPlainDigit_of_head? {width n : ℕ} (hwidth : 0 < width) (h : n < 10 ^ width)
    {rest : List Char} {c : Char} (hc : ((padded width n).toList ++ rest).head? = some c) :
    isPlainDigit c = true := by
  have hall := all_padded width n
  have hlength := length_padded hwidth h
  cases hcs : (padded width n).toList with
  | nil =>
    rw [hcs] at hlength
    exact absurd hlength hwidth.ne
  | cons d more =>
    rw [hcs, List.all_cons, Bool.and_eq_true] at hall
    rw [hcs] at hc
    obtain rfl := Option.some.inj hc
    exact hall.1

theorem padded_append_lt {width m n : ℕ} (hwidth : 0 < width) (hn : n < 10 ^ width) (h : m < n)
    (v w : List Char) : (padded width m).toList ++ v < (padded width n).toList ++ w := by
  refine Number.append_lt_of_digitsValue_lt ?_ (all_padded width m) (all_padded width n) ?_ v w
  · rw [length_padded hwidth (h.trans hn), length_padded hwidth hn]
  · rwa [digitsValue_padded, digitsValue_padded]

/-- Digits are written again as they were read. -/
theorem padded_digitsValue {run : List Char} (hrun : run.all isPlainDigit = true)
    (hne : 0 < run.length) : (padded run.length (digitsValue run)).toList = run := by
  apply Number.eq_of_digitsValue_eq
  · exact length_padded hne (Number.digitsValue_lt hrun)
  · exact all_padded _ _
  · exact hrun
  · exact digitsValue_padded _ _

theorem cutDigits?_append (run rest : List Char) : cutDigits? run.length (run ++ rest) =
    if run.all isPlainDigit then some (digitsValue run, rest) else none := by
  simp [cutDigits?]

/-! ### Whole dates -/

theorem toList_isoText (d : Date) : d.isoText.toList =
    (padded 4 d.year).toList ++ '-' :: ((padded 2 d.month).toList ++ '-' ::
      (padded 2 d.day).toList) := by
  simp [isoText, String.toList_append]

variable {d e : Date}

theorem Valid.lt (h : d.Valid) : d.year < 10 ^ 4 ∧ d.month < 10 ^ 2 ∧ d.day < 10 ^ 2 := by
  obtain ⟨⟨-, hyear⟩, ⟨-, hmonth⟩, -, hday⟩ := h
  have hdays : daysInMonth d.year d.month ≤ 31 := by
    unfold daysInMonth
    split_ifs <;> omega
  unfold lastYear at hyear
  omega

theorem utf8Size_of_isPlainDigit {c : Char} (h : isPlainDigit c = true) : c.utf8Size = 1 := by
  rw [Char.utf8Size_eq_one_iff, UInt32.le_iff_toNat_le]
  exact (Number.toNat_of_isPlainDigit h).2.trans (by decide)

theorem utf8ByteSize_of_ascii {cs : List Char} (h : ∀ c ∈ cs, c.utf8Size = 1) :
    (String.ofList cs).utf8ByteSize = cs.length := by
  induction cs with
  | nil => rfl
  | cons c rest ih =>
    obtain ⟨hc, hrest⟩ := List.forall_mem_cons.mp h
    rw [String.ofList_cons, String.utf8ByteSize_append, String.utf8ByteSize_singleton, hc, ih hrest,
      List.length_cons, Nat.add_comm]

theorem ofParts_of_valid (h : d.Valid) : ofParts d.year d.month d.day = .ok d := by
  obtain ⟨hyear, hmonth, hday⟩ := h
  unfold ofParts
  rw [if_neg (by omega), if_neg (by omega), if_neg (by omega)]

theorem isPlainDigit_or_dash {c : Char} (hc : c ∈ d.isoText.toList) :
    isPlainDigit c = true ∨ c = '-' := by
  rw [toList_isoText] at hc
  simp only [List.mem_append, List.mem_cons] at hc
  have hdigit (width n : ℕ) (h : c ∈ (padded width n).toList) : isPlainDigit c = true :=
    List.all_eq_true.mp (all_padded width n) c h
  rcases hc with h | h | h | h | h
  · exact Or.inl (hdigit _ _ h)
  · exact Or.inr h
  · exact Or.inl (hdigit _ _ h)
  · exact Or.inr h
  · exact Or.inl (hdigit _ _ h)

/-- The text of a date that the calendar has is read back as the date. -/
theorem read_isoText (h : d.Valid) : read d.isoText = .ok d := by
  obtain ⟨hyear, hmonth, hday⟩ := h.lt
  have hsize : d.isoText.utf8ByteSize = 10 := by
    have hascii : ∀ c ∈ d.isoText.toList, c.utf8Size = 1 := by
      intro c hc
      rcases isPlainDigit_or_dash hc with hdigit | rfl
      · exact utf8Size_of_isPlainDigit hdigit
      · rfl
    rw [← String.ofList_toList (s := d.isoText), utf8ByteSize_of_ascii hascii, toList_isoText]
    simp only [List.length_append, List.length_cons, length_padded (by decide) hyear,
      length_padded (by decide) hmonth, length_padded (by decide) hday]
  have hcutYear := cutDigits?_padded (by decide) hyear ('-' :: ((padded 2 d.month).toList ++
    '-' :: (padded 2 d.day).toList))
  have hcutMonth := cutDigits?_padded (by decide) hmonth ('-' :: (padded 2 d.day).toList)
  have hcutDay := cutDigits?_padded (by decide) hday []
  rw [List.append_nil] at hcutDay
  have hmonthDay : readMonthDay? true
      ((padded 2 d.month).toList ++ '-' :: (padded 2 d.day).toList) =
      some (d.month, d.day) := by
    simp [readMonthDay?, hcutMonth, cutDash?, hcutDay]
  have hweek : ((padded 2 d.month).toList ++ '-' :: (padded 2 d.day).toList).head? ≠ some 'W' :=
    fun hhead => absurd (isPlainDigit_of_head? (by decide) hmonth hhead) (by decide)
  simp only [read, hsize, toList_isoText, hcutYear, List.head?_cons, List.tail_cons, decide_true,
    if_true, hweek, if_false, hmonthDay, ofParts_of_valid h]
  rfl

theorem valid_of_ofParts {year month day : ℕ} (h : ofParts year month day = .ok d) :
    d.Valid ∧ d = ⟨year, month, day⟩ := by
  unfold ofParts at h
  split_ifs at h with hyear hmonth hday
  obtain rfl := Except.ok.inj h
  refine ⟨⟨?_, ?_, ?_⟩, rfl⟩
  · show 1 ≤ year ∧ year ≤ lastYear
    omega
  · show 1 ≤ month ∧ month ≤ 12
    omega
  · show 1 ≤ day ∧ day ≤ daysInMonth year month
    omega

/-- A text with dashes at the places of those of a date is read as a date only if it is the text
of this date. -/
theorem eq_isoText_of_read {y₁ y₂ y₃ y₄ m₁ m₂ d₁ d₂ : Char}
    (h : read (String.ofList [y₁, y₂, y₃, y₄, '-', m₁, m₂, '-', d₁, d₂]) = .ok d) :
    d.Valid ∧ d.isoText.toList = [y₁, y₂, y₃, y₄, '-', m₁, m₂, '-', d₁, d₂] := by
  have hyear := cutDigits?_append [y₁, y₂, y₃, y₄] ['-', m₁, m₂, '-', d₁, d₂]
  have hmonth := cutDigits?_append [m₁, m₂] ['-', d₁, d₂]
  have hday := cutDigits?_append [d₁, d₂] []
  -- a week of the year would have two digits in front of the second dash
  have hweek : ∀ c : Char, cutDigits? 2 [c, '-', d₁, d₂] = none := by
    intro c
    have hdash : isPlainDigit '-' = false := by decide
    simpa [hdash] using cutDigits?_append [c, '-'] [d₁, d₂]
  simp only [List.length_cons, List.length_nil, Nat.reduceAdd, List.cons_append,
    List.nil_append] at hyear hmonth hday
  unfold read at h
  dsimp only at h
  split_ifs at h with hsize
  rw [String.toList_ofList, hyear] at h
  split_ifs at h with hyears
  simp only [List.head?_cons, List.tail_cons, decide_true, if_true, Option.some.injEq,
    readWeekDay?, readMonthDay?, hweek, hmonth] at h
  split_ifs at h with hw hmonths
  · cases h
  · simp only [Option.bind_eq_bind, Option.bind_some, cutDash?, List.head?_cons, List.tail_cons,
      if_true, hday] at h
    split_ifs at h with hdays
    · obtain ⟨hvalid, rfl⟩ := valid_of_ofParts h
      refine ⟨hvalid, ?_⟩
      have hyear' := padded_digitsValue hyears (Nat.succ_pos 3)
      have hmonth' := padded_digitsValue hmonths (Nat.succ_pos 1)
      have hday' := padded_digitsValue hdays (Nat.succ_pos 1)
      simp only [List.length_cons, List.length_nil, Nat.reduceAdd] at hyear' hmonth' hday'
      rw [toList_isoText, hyear', hmonth', hday']
      rfl
    · cases h
  · cases h

/-- No later than another day in the order of the calendar. -/
def NotAfter (d e : Date) : Prop :=
  d.year < e.year ∨ d.year = e.year ∧ (d.month < e.month ∨ d.month = e.month ∧ d.day ≤ e.day)

instance (d e : Date) : Decidable (d.NotAfter e) := inferInstanceAs (Decidable (_ ∨ _))

/-- Dates and their texts are in the same order. -/
theorem isoText_le (he : e.Valid) (h : d.NotAfter e) : d.isoText ≤ e.isoText := by
  obtain ⟨hyear, hmonth, hday⟩ := he.lt
  rw [String.le_iff_toList_le, toList_isoText, toList_isoText]
  rcases h with hlt | ⟨heq, hlt | ⟨heq', hle⟩⟩
  · exact (padded_append_lt (by decide) hyear hlt _ _).le
  · rw [heq]
    refine (List.append_left_lt (List.cons_lt_cons_self.mpr ?_)).le
    exact padded_append_lt (by decide) hmonth hlt _ _
  · rw [heq, heq']
    rcases Nat.lt_or_eq_of_le hle with hlt | heq''
    · refine (List.append_left_lt (List.cons_lt_cons_self.mpr
        (List.append_left_lt (List.cons_lt_cons_self.mpr ?_)))).le
      simpa using padded_append_lt (by decide) hday hlt [] []
    · rw [heq'']

end Date

end NoteGraph
