import NoteGraph.Proofs.Ledger.Dates
import NoteGraph.Proofs.Ledger.LeadingNumeral

/-!
# What becomes of the lines of a ledger

Every line of a ledger is one thing only: it is skipped, divides the ledger, declares an account,
states a transaction, asks for a report, or is a problem. No line can be read by two of the rules,
so the order in which they are tried does not matter, and no line is left out: the accounts,
reports and problems of a ledger are those of its lines, in their order, and so are its
transactions but for their order, which is by date and then by line.
-/

namespace NoteGraph.Ledger

open Text

/-! ### Rules for lines -/

/-- Whether there is a divider among some lines. -/
def isDivided (before : List (List Char)) : Bool := before.any fun raw => trim raw = ['-', '-', '-']

/-- How a trimmed line with a number can be read; `divided` tells whether a divider comes before
it. No rule asks for another one not to apply. -/
inductive Line.Reads (divided : Bool) (number : ℕ) (line : List Char) : Line → Prop where
  | blank : line = [] → Reads divided number line .skipped
  | comment (c : Char) (rest : List Char) : line = '#' :: c :: rest → isBlank c = true →
      Reads divided number line .skipped
  | divider : line = ['-', '-', '-'] → Reads divided number line .divider
  | separator : divided = false → isSeparator line = true → Reads divided number line .skipped
  | header (cells : List (List Char)) : divided = false → cells? line = some cells →
      isHeader cells = true → Reads divided number line .skipped
  | account (a : Account Number) : divided = false → Account.ofLine? line = some a →
      Reads divided number line (.account a)
  | transaction (t : Transaction Number) : divided = false →
      Transaction.ofLine? line (some number) = some t → Reads divided number line (.transaction t)
  | directive (d : Directive) : divided = true → Directive.ofLine? line = some d →
      Reads divided number line (.directive d)

/-- What a trimmed line says: what it can be read as, or else it is a problem with its number. -/
inductive Line.Says (divided : Bool) (number : ℕ) (line : List Char) : Line → Prop where
  | read {x : Line} : Line.Reads divided number line x → Says divided number line x
  | problem : (∀ x, ¬Line.Reads divided number line x) →
      Says divided number line
        (.problem ⟨if divided then .unknownDirective else .unreadable, number, String.ofList line⟩)

/-- A row that states a transaction: the first of its cells, which are four or more, is a day of
the calendar, and the third one starts with a numeral. -/
def IsRow (line : List Char) : Prop :=
  ∃ (d : Date) (description amount account : List Char) (rest : List (List Char)), d.Valid ∧
    cells? line = some (d.isoText.toList :: description :: amount :: account :: rest) ∧
    (leadingNumeral? amount).isSome = true

/-! ### Telling rows, declarations and requests apart -/

section Marks

variable {line : List Char} {cells : List (List Char)}

theorem head?_of_isSeparator (h : isSeparator line = true) : line.head? = some '|' := by
  unfold isSeparator at h
  cases hafter : after? ['|'] line with
  | none =>
    rw [hafter] at h
    cases h
  | some inner =>
    rw [after?_eq_some_iff.mp hafter]
    rfl

theorem exists_inner_of_cells? (h : cells? line = some cells) :
    ∃ more inner, line = '|' :: more ∧ oneLine? more = some inner ∧
      (inner.dropLast.splitOn '|').map trim = cells := by
  unfold cells? at h
  cases hinner : (after? ['|'] line).bind oneLine? with
  | none =>
    rw [hinner] at h
    cases h
  | some inner =>
    obtain ⟨more, hafter, hone⟩ := Option.bind_eq_some_iff.mp hinner
    rw [hinner] at h
    dsimp only at h
    split_ifs at h
    exact ⟨more, inner, after?_eq_some_iff.mp hafter, hone, Option.some.inj h⟩

theorem head?_of_cells? (h : cells? line = some cells) : line.head? = some '|' := by
  obtain ⟨more, -, rfl, -⟩ := exists_inner_of_cells? h
  rfl

theorem head?_of_account {a : Account Number} (h : Account.ofLine? line = some a) :
    line.head? = some '@' := by
  obtain ⟨rest, hafter, -⟩ := Option.bind_eq_some_iff.mp h
  rw [after?_eq_some_iff.mp hafter]
  rfl

/-- A row declares no account. -/
theorem account_eq_none (h : line.head? = some '|') : Account.ofLine? line = none := by
  cases haccount : Account.ofLine? line with
  | none => rfl
  | some a =>
    have hhead := head?_of_account haccount
    rw [h] at hhead
    exact absurd hhead (by decide)

theorem trim_of_mem_cells (h : cells? line = some cells) {cell : List Char} (hcell : cell ∈ cells) :
    trim cell = cell := by
  obtain ⟨more, inner, -, -, rfl⟩ := exists_inner_of_cells? h
  obtain ⟨piece, -, rfl⟩ := List.mem_map.mp hcell
  exact trim_trim piece

/-- What stands in a cell stands between the first and the last bar of its row. -/
theorem mem_inner_of_mem_cell {inner cell : List Char}
    (hcell : cell ∈ (inner.dropLast.splitOn '|').map trim) {c : Char} (hc : c ∈ cell) :
    c ∈ inner.dropLast := by
  obtain ⟨piece, hpiece, rfl⟩ := List.mem_map.mp hcell
  obtain ⟨v, w, -, -, heq⟩ := exists_append_trim_append piece
  have hin : c ∈ piece := by
    rw [heq]
    simp [hc]
  have hjoin : ['|'].intercalate (inner.dropLast.splitOn '|') = inner.dropLast :=
    List.intercalate_splitOn '|'
  rw [← hjoin]
  exact mem_intercalate_of_mem hpiece hin

/-- A separator has no cell with a character that separators do not have. -/
theorem isSeparator_of_mem_cells (h : cells? line = some cells) {cell : List Char}
    (hcell : cell ∈ cells) {c : Char} (hc : c ∈ cell)
    (hmark : isBlank c = false ∧ c ≠ '-' ∧ c ≠ ':' ∧ c ≠ '|') : isSeparator line = false := by
  obtain ⟨more, inner, rfl, hone, rfl⟩ := exists_inner_of_cells? h
  have hafter : after? ['|'] ('|' :: more) = some more := after?_eq_some_iff.mpr rfl
  have hmem := mem_inner_of_mem_cell hcell hc
  unfold oneLine? atEnd at hone
  split_ifs at hone with hend
  obtain rfl := Option.some.inj hone
  have hsplit := List.takeWhile_append_dropWhile (p := inLine) (l := more)
  rw [isSeparator, hafter]
  simp only [Bool.or_eq_true, List.isEmpty_iff, beq_iff_eq] at hend
  rcases hend with hend | hend
  · rw [hend, List.append_nil] at hsplit
    rw [hsplit] at hmem
    simp only [Bool.and_eq_false_iff]
    right
    rw [List.all_eq_false]
    exact ⟨c, hmem, by simp [hmark]⟩
  · -- a line end closes the row, and not a bar
    rw [← hsplit, hend]
    simp

/-- The first word of a text that starts with no blank starts with its first character. -/
theorem head?_words {c : Char} (hc : isBlank c = false) (rest : List Char) :
    ∃ more others, words (c :: rest) = (c :: more) :: others := by
  obtain ⟨first, others, hsplit⟩ := List.exists_cons_of_ne_nil (List.splitOnP_ne_nil isBlank rest)
  refine ⟨first, others.filter fun w => !w.isEmpty, ?_⟩
  rw [words, List.splitOnP_cons_eq_if_modifyHead]
  simp [hc, hsplit]

/-- A request starts with a letter, so it is no comment and no divider. -/
theorem exists_head?_of_directive (htrim : trim line = line) {d : Directive}
    (h : Directive.ofLine? line = some d) : ∃ c, line.head? = some c ∧ c ≠ '#' ∧ c ≠ '-' := by
  cases line with
  | nil => cases h
  | cons c rest =>
    have hblank : isBlank c = false := (trim_eq_self_iff.mp htrim).1 c rfl
    obtain ⟨more, others, hwords⟩ := head?_words hblank rest
    refine ⟨c, rfl, ?_⟩
    have hword : String.ofList (c :: more) ∈ ["balance", "summary", "chart"] := by
      unfold Directive.ofLine? at h
      rw [hwords, List.map_cons] at h
      generalize String.ofList (c :: more) = word at h ⊢
      split at h
      · rename_i heq
        simp [(List.cons.inj heq).1]
      · rename_i heq
        simp [(List.cons.inj heq).1]
      · rename_i heq
        simp [(List.cons.inj heq).1]
      · cases h
    simp only [List.mem_cons, List.not_mem_nil, or_false, ← String.toList_inj,
      String.toList_ofList] at hword
    rcases hword with heq | heq | heq
    all_goals
      obtain rfl := (List.cons.inj heq).1
      decide

end Marks

/-! ### Accepted rows -/

section Rows

variable {line : List Char}

theorem exists_cells_of_transaction {number : Option ℕ} {t : Transaction Number}
    (h : Transaction.ofLine? line number = some t) : IsRow line ∧ t.line = number := by
  unfold Transaction.ofLine? at h
  split at h
  · rename_i date description amount account rest hcells
    split_ifs at h with hdate
    obtain ⟨d, hd, rfl⟩ := exists_day_of_isDate hdate
    split at h
    · rename_i value hvalue
      obtain rfl := Option.some.inj h
      refine ⟨⟨d, description, amount, account, rest, hd, hcells, ?_⟩, rfl⟩
      unfold leadingNumber at hvalue
      rw [String.toList_ofList] at hvalue
      cases hnumeral : leadingNumeral? amount with
      | none =>
        rw [hnumeral] at hvalue
        cases hvalue
      | some numeral => rfl
    · cases h
  · cases h

/-- The rows that are accepted are those with a day and an amount. -/
theorem isSome_transaction_iff {number : Option ℕ} :
    (Transaction.ofLine? line number).isSome = true ↔ IsRow line := by
  constructor
  · intro h
    obtain ⟨t, ht⟩ := Option.isSome_iff_exists.mp h
    exact (exists_cells_of_transaction ht).1
  · rintro ⟨d, description, amount, account, rest, hd, hcells, hnumeral⟩
    obtain ⟨found, hfound⟩ := Option.isSome_iff_exists.mp hnumeral
    have htrim : trim amount = amount := trim_of_mem_cells hcells (by simp)
    obtain ⟨value, hvalue⟩ := exists_leadingNumber (trim_eq_self_iff.mp htrim).1 hfound
    unfold Transaction.ofLine?
    rw [hcells]
    simp [Booking.isDate_isoText hd, hvalue]

/-- An accepted row is neither a separator nor a header. -/
theorem IsRow.not_skipped (h : IsRow line) :
    isSeparator line = false ∧ (cells? line).any isHeader = false := by
  obtain ⟨d, description, amount, account, rest, hd, hcells, -⟩ := h
  obtain ⟨c, more, hdate, hc⟩ := Booking.exists_digit_isoText hd
  have hmark : ∀ mark, Number.isPlainDigit mark = false → c ≠ mark := by
    rintro mark hmark rfl
    rw [hc] at hmark
    cases hmark
  constructor
  · refine isSeparator_of_mem_cells hcells List.mem_cons_self (c := c) (by simp [hdate])
      ⟨(Booking.isBlank_of_isPlainDigit hc).1, ?_, ?_, ?_⟩
    all_goals exact hmark _ (by decide)
  · rw [hcells, Option.any_some, hdate, Booking.isHeader_of_isPlainDigit hc]

end Rows

/-! ### What a line says -/

section Line

variable {divided : Bool} {number : ℕ} {raw : List Char} {x : Line}

/-- A rule that applies says what the line is read as, whichever rules are tried before. -/
theorem Line.Reads.read_eq (h : Line.Reads divided number (trim raw) x) :
    Line.read divided number raw = x := by
  have hbar : (trim raw).head? = some '|' → divided = false →
      Line.read divided number raw = Line.ofEntry number (trim raw) := by
    rintro hhead rfl
    exact Line.read_of_head? hhead (by decide) false number
  cases h with
  | blank hline => simp [Line.read, hline]
  | comment c rest hline hc =>
    have hcomment : isComment (trim raw) = true := by
      simp [isComment, after?, hline, hc]
    simp [Line.read, hcomment]
  | divider hline =>
    rw [Line.read, hline]
    rfl
  | separator hdivided hseparator =>
    rw [hbar (head?_of_isSeparator hseparator) hdivided, Line.ofEntry, hseparator, if_pos rfl]
  | header cells hdivided hcells hheader =>
    have hhead := head?_of_cells? hcells
    rw [hbar hhead hdivided, Line.ofEntry, account_eq_none hhead, hcells]
    simp [hheader]
  | account a hdivided ha =>
    have hhead := head?_of_account ha
    have hseparator : isSeparator (trim raw) = false := by
      by_contra hseparator
      have hbar := head?_of_isSeparator (eq_true_of_ne_false hseparator)
      rw [hhead] at hbar
      exact absurd hbar (by decide)
    rw [Line.read_of_head? hhead (by decide), hdivided, if_neg Bool.false_ne_true, Line.ofEntry,
      hseparator, if_neg Bool.false_ne_true, ha]
  | transaction t hdivided ht =>
    have hrow := (exists_cells_of_transaction ht).1
    obtain ⟨hseparator, hheader⟩ := hrow.not_skipped
    obtain ⟨d, description, amount, account, rest, -, hcells, -⟩ := hrow
    have hhead := head?_of_cells? hcells
    rw [hbar hhead hdivided, Line.ofEntry, hseparator, if_neg Bool.false_ne_true,
      account_eq_none hhead, hheader, ht]
    rfl
  | directive d hdivided hd =>
    obtain ⟨c, hhead, hmark⟩ := exists_head?_of_directive (trim_trim raw) hd
    rw [Line.read_of_head? hhead hmark, if_pos hdivided, Line.ofRequest, hd]

/-- A line to which no rule applies is a problem. -/
theorem read_of_forall_not (hnone : ∀ x, ¬Line.Reads divided number (trim raw) x) :
    Line.read divided number raw = .problem
      ⟨if divided then .unknownDirective else .unreadable, number, String.ofList (trim raw)⟩ := by
  have hloud : (trim raw).isEmpty = false := by
    by_contra hblank
    exact hnone _ (.blank (by simpa using hblank))
  have hcomment : isComment (trim raw) = false := by
    by_contra hcomment
    obtain ⟨rest, hafter, hstart⟩ :=
      (Option.any_eq_true _ _).mp (eq_true_of_ne_false hcomment)
    obtain ⟨c, hc, hblank⟩ := (Option.any_eq_true _ _).mp hstart
    obtain ⟨more, rfl⟩ := List.head?_eq_some_iff.mp hc
    exact hnone _ (.comment c more (after?_eq_some_iff.mp hafter) hblank)
  have hdivider : trim raw ≠ ['-', '-', '-'] := fun hline => hnone _ (.divider hline)
  rw [Line.read, hloud, hcomment, Bool.or_false, if_neg Bool.false_ne_true, if_neg hdivider]
  cases divided with
  | true =>
    have hdirective : Directive.ofLine? (trim raw) = none :=
      Option.eq_none_iff_forall_ne_some.mpr fun d hd => hnone _ (.directive d rfl hd)
    rw [if_pos rfl, if_pos rfl, Line.ofRequest, hdirective]
  | false =>
    have hseparator : isSeparator (trim raw) = false := by
      by_contra hseparator
      exact hnone _ (.separator rfl (eq_true_of_ne_false hseparator))
    have haccount : Account.ofLine? (trim raw) = none :=
      Option.eq_none_iff_forall_ne_some.mpr fun a ha => hnone _ (.account a rfl ha)
    have hheader : (cells? (trim raw)).any isHeader = false := by
      by_contra hheader
      obtain ⟨cells, hcells, hheader⟩ :=
        (Option.any_eq_true _ _).mp (eq_true_of_ne_false hheader)
      exact hnone _ (.header cells rfl hcells hheader)
    have htransaction : Transaction.ofLine? (trim raw) (some number) = none :=
      Option.eq_none_iff_forall_ne_some.mpr fun t ht => hnone _ (.transaction t rfl ht)
    rw [if_neg Bool.false_ne_true, if_neg Bool.false_ne_true, Line.ofEntry, hseparator,
      if_neg Bool.false_ne_true, haccount, hheader, htransaction]
    rfl

/-- What a line is read as is what it says. -/
theorem says_read (divided : Bool) (number : ℕ) (raw : List Char) :
    Line.Says divided number (trim raw) (Line.read divided number raw) := by
  by_cases hreads : ∃ x, Line.Reads divided number (trim raw) x
  · obtain ⟨x, hx⟩ := hreads
    rw [hx.read_eq]
    exact .read hx
  · have hnone := not_exists.mp hreads
    rw [read_of_forall_not hnone]
    exact .problem hnone

theorem says_iff : Line.Says divided number (trim raw) x ↔ Line.read divided number raw = x := by
  constructor
  · intro h
    cases h with
    | read hx => exact hx.read_eq
    | problem hnone =>
      have hsaid := says_read divided number raw
      generalize Line.read divided number raw = y at hsaid ⊢
      cases hsaid with
      | read hy => exact absurd hy (hnone y)
      | problem => rfl
  · rintro rfl
    exact says_read divided number raw

theorem read_eq_divider_iff :
    Line.read divided number raw = .divider ↔ trim raw = ['-', '-', '-'] := by
  rw [← says_iff]
  constructor
  · intro h
    cases h with
    | read hreads =>
      cases hreads with
      | divider hline => exact hline
  · intro hline
    exact .read (.divider hline)

/-- A problem has the number of its line. -/
theorem Line.Says.line_of_problem (h : Line.Says divided number raw x) {p : Problem}
    (hp : x.problem? = some p) : p.line = number := by
  cases h with
  | read hreads => cases hreads <;> cases hp
  | problem =>
    obtain rfl := Option.some.inj hp
    rfl

/-- A transaction has the number of its line and a day of the calendar. -/
theorem Line.Says.line_of_transaction (h : Line.Says divided number raw x)
    {t : Transaction Number} (ht : x.transaction? = some t) :
    t.line = some number ∧ IsRowDate t.date := by
  cases h with
  | read hreads =>
    cases hreads with
    | transaction u hdivided hu =>
      obtain rfl := Option.some.inj ht
      exact ⟨(exists_cells_of_transaction hu).2, raw, some number, u, hu, rfl⟩
    | _ => cases ht
  | problem => cases ht

end Line

/-! ### What the lines of a text say -/

theorem length_readLines (ls : List (List Char)) :
    ∀ divided number, (readLines divided number ls).length = ls.length := by
  induction ls with
  | nil => exact fun _ _ => rfl
  | cons raw rest ih =>
    intro divided number
    rw [readLines, List.length_cons, ih, List.length_cons]

/-- Each line is read with its own number, and as a request if a divider comes before it. -/
theorem getElem?_readLines (ls : List (List Char)) : ∀ divided number i,
    (readLines divided number ls)[i]? =
      ls[i]?.map (Line.read (divided || isDivided (ls.take i)) (number + i)) := by
  induction ls with
  | nil => exact fun _ _ _ => rfl
  | cons raw rest ih =>
    intro divided number i
    cases i with
    | zero => simp [readLines, isDivided]
    | succ i =>
      have hdivider : decide (Line.read divided number raw = .divider) =
          decide (trim raw = ['-', '-', '-']) := decide_eq_decide.mpr read_eq_divider_iff
      rw [readLines, List.getElem?_cons_succ, List.getElem?_cons_succ, ih, List.take_succ_cons,
        hdivider, Bool.or_assoc, Nat.add_assoc, Nat.add_comm 1]
      rfl

/-- What has the number of the line that states it is stated in the order of these numbers. -/
theorem pairwise_filterMap_readLines {β : Type} {f : Line → Option β} (lineOf : β → Option ℕ)
    (h : ∀ {divided number line x}, Line.Says divided number line x →
      ∀ {b}, f x = some b → lineOf b = some number)
    (divided : Bool) (number : ℕ) (ls : List (List Char)) :
    ((readLines divided number ls).filterMap f).Pairwise fun b b' =>
      ∃ m n, lineOf b = some m ∧ lineOf b' = some n ∧ m < n := by
  have hline : ∀ i (hi : i < (readLines divided number ls).length) b,
      f (readLines divided number ls)[i] = some b → lineOf b = some (number + i) := by
    intro i hi b hb
    have hread := getElem?_readLines ls divided number i
    rw [List.getElem?_eq_getElem hi] at hread
    obtain ⟨raw, -, hraw⟩ := Option.map_eq_some_iff.mp hread.symm
    rw [← hraw] at hb
    exact h (says_read _ _ raw) hb
  rw [List.pairwise_filterMap, List.pairwise_iff_getElem]
  intro i j hi hj hlt b hb b' hb'
  exact ⟨number + i, number + j, hline i hi b hb, hline j hj b' hb', by omega⟩

theorem exists_says_of_mem {divided : Bool} {number : ℕ} {ls : List (List Char)} {x : Line}
    (h : x ∈ readLines divided number ls) :
    ∃ divided number line, Line.Says divided number line x := by
  obtain ⟨i, hi⟩ := List.mem_iff_getElem?.mp h
  rw [getElem?_readLines] at hi
  obtain ⟨raw, -, rfl⟩ := Option.map_eq_some_iff.mp hi
  exact ⟨_, _, _, says_read _ _ raw⟩

/-! ### Sorting by a key -/

/-- Entries are sorted by a key, and what holds of any two of one key goes on to hold of them. -/
theorem pairwise_mergeSort_key {α β : Type} [LinearOrder β] (key : α → β) {R : α → α → Prop}
    {as : List α} (h : as.Pairwise R) :
    (as.mergeSort fun a b => decide (key a ≤ key b)).Pairwise fun a b =>
      key a < key b ∨ key a = key b ∧ R a b := by
  have htrans : ∀ a b c : α, decide (key a ≤ key b) = true → decide (key b ≤ key c) = true →
      decide (key a ≤ key c) = true := by
    intro a b c hab hbc
    simp only [decide_eq_true_eq] at hab hbc ⊢
    exact hab.trans hbc
  have htotal : ∀ a b : α, (decide (key a ≤ key b) || decide (key b ≤ key a)) = true := by
    intro a b
    simpa using le_total (key a) (key b)
  -- the entries of one key stay in the order that they have
  have hstable : ∀ k : β, (as.mergeSort fun a b => decide (key a ≤ key b)).filter (key · = k) =
      as.filter (key · = k) := by
    intro k
    have hsorted : (as.filter (key · = k)).Pairwise fun a b => decide (key a ≤ key b) = true := by
      apply List.pairwise_of_forall_mem_list
      intro a ha b hb
      have hkey := of_decide_eq_true (List.mem_filter.mp ha).2
      have hkey' := of_decide_eq_true (List.mem_filter.mp hb).2
      exact decide_eq_true (hkey.trans hkey'.symm).le
    have hsublist := (List.sublist_mergeSort htrans htotal hsorted List.filter_sublist).filter
      (key · = k)
    rw [List.filter_filter] at hsublist
    simp only [Bool.and_self] at hsublist
    exact (hsublist.eq_of_length ((List.mergeSort_perm _ _).filter _).length_eq.symm).symm
  rw [List.pairwise_iff_forall_sublist]
  intro a b hab
  have hle := List.pairwise_iff_forall_sublist.mp (List.pairwise_mergeSort htrans htotal as) hab
  rw [decide_eq_true_eq] at hle
  rcases hle.lt_or_eq with hlt | heq
  · exact .inl hlt
  · right
    refine ⟨heq, List.pairwise_iff_forall_sublist.mp h ?_⟩
    have hkey := hab.filter (key · = key b)
    rw [hstable] at hkey
    have hboth : [a, b].filter (key · = key b) = [a, b] := by simp [heq]
    rw [hboth] at hkey
    exact hkey.trans List.filter_sublist

/-! ### Ledgers -/

/-- A transaction comes before another one: by its date, and on one day by its line. -/
def Transaction.Before (s t : Transaction Number) : Prop :=
  s.date < t.date ∨ s.date = t.date ∧ ∃ m n, s.line = some m ∧ t.line = some n ∧ m < n

/-- A ledger that is made up of what some lines say, with nothing left out or added. -/
structure MadeUpOf (ls : List (List Char)) (said : List Line) (ledger : Ledger Number) : Prop where
  length_eq : said.length = ls.length
  /-- Each line says one thing only. -/
  says_iff : ∀ (i : Fin ls.length) (x : Line),
    Line.Says (isDivided (ls.take i)) (i + 1) (trim (ls.get i)) x ↔ said[i.val]? = some x
  accounts : ledger.accounts = said.filterMap Line.account?
  directives : ledger.directives = said.filterMap Line.directive?
  problems : ledger.problems = said.filterMap Line.problem?
  problems_in_order : ledger.problems.Pairwise fun p q => p.line < q.line
  transactions : ledger.transactions.Perm (said.filterMap Line.transaction?)
  transactions_in_order : ledger.transactions.Pairwise Transaction.Before
  /-- The order of dates is that of the days that they name. -/
  dates : ∀ s ∈ ledger.transactions, ∀ t ∈ ledger.transactions, ∃ d e : Date,
    (d.Valid ∧ d.isoText = s.date) ∧ (e.Valid ∧ e.isoText = t.date) ∧
      (s.date ≤ t.date ↔ d.NotAfter e)

/-- **No line of a ledger is lost**: each line says exactly one thing. The accounts, the reports
and the problems of a ledger are what its lines say, in their order, and the problems have the
numbers of their lines. The transactions are the rows that are accepted, by date and then by line,
and the order of dates is that of days. A row is accepted exactly if it has a day of the calendar
and an amount. -/
theorem ofText_loses_no_line :
    (∀ text : String, ∃ said, MadeUpOf (lines text.toList) said (ofText text)) ∧
    ∀ (line : List Char) (number : Option ℕ),
      (Transaction.ofLine? line number).isSome = true ↔ IsRow line := by
  refine ⟨fun text => ?_, fun line number => isSome_transaction_iff⟩
  let ls := lines text.toList
  let said := readLines false 1 ls
  have hperm : (ofText text).transactions.Perm (said.filterMap Line.transaction?) :=
    List.mergeSort_perm _ _
  have hday : ∀ t ∈ (ofText text).transactions, ∃ d : Date, d.Valid ∧ d.isoText = t.date := by
    intro t ht
    obtain ⟨x, hx, hxt⟩ := List.mem_filterMap.mp (hperm.mem_iff.mp ht)
    obtain ⟨divided, number, line, hsaid⟩ := exists_says_of_mem hx
    exact isRowDate_iff.mp (hsaid.line_of_transaction hxt).2
  refine ⟨said, ?_⟩
  constructor
  case length_eq => exact length_readLines ls false 1
  case says_iff =>
    intro i x
    rw [says_iff, getElem?_readLines, List.getElem?_eq_getElem i.isLt, Option.map_some,
      Bool.false_or, Nat.add_comm 1, Option.some.injEq]
    rfl
  case accounts => rfl
  case directives => rfl
  case problems => rfl
  case problems_in_order =>
    have hnumbers := pairwise_filterMap_readLines (fun p : Problem => some p.line)
      (fun hsaid _ hp => congrArg some (hsaid.line_of_problem hp)) false 1 ls
    apply hnumbers.imp
    rintro p q ⟨m, n, hm, hn, hlt⟩
    rwa [Option.some.inj hm, Option.some.inj hn]
  case transactions => exact hperm
  case transactions_in_order =>
    have hnumbers := pairwise_filterMap_readLines Transaction.line
      (fun hsaid _ ht => (hsaid.line_of_transaction ht).1) false 1 ls
    exact pairwise_mergeSort_key (fun t : Transaction Number => t.date) hnumbers
  case dates =>
    intro s hs t ht
    obtain ⟨d, hd, hds⟩ := hday s hs
    obtain ⟨e, he, het⟩ := hday t ht
    refine ⟨d, e, ⟨hd, hds⟩, ⟨he, het⟩, ?_⟩
    rw [← hds, ← het, Date.isoText_le_iff hd he, Date.dayNumber_le_iff hd he]

/-- A day that no calendar has is a problem, and so is a row after the divider. -/
example : (ofText ("@account Cash 10\n| 2024-02-30 | Tea | -4 | Cash |\n# May\n" ++
    "| 2024-05-01 | Tea | -4 EUR | Cash |\n---\nbalance\n| 2024-05-01 | Tea | -4 | Cash |")
    ).problems.map Problem.message =
      ["Line 2: Could not parse \"| 2024-02-30 | Tea | -4 | Cash |\"",
        "Line 7: Unknown directive \"| 2024-05-01 | Tea | -4 | Cash |\""] := by
  decide +kernel

end NoteGraph.Ledger
