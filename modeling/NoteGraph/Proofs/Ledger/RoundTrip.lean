import NoteGraph.Proofs.Ledger.Rows

/-!
# Writing a ledger and reading it back

A draft of a ledger is written line by line: declarations, rows in the order of their dates, the
divider, and the reports that are asked for. Reading the text gives back what was drafted, with
the number of its line for each transaction and no problem, if every row is one line. A line end
in the description or in an account of a row is allowed by no other rule of the grammar, but it
ends the row: what stands before it does not end with a bar, and is a problem.
-/

namespace NoteGraph.Ledger

open Text

/-! ### Drafts -/

/-- A ledger as it is to be written. -/
structure Draft where
  declarations : List Declaration
  bookings : List Booking
  directives : List Directive
  sorted : bookings.Pairwise fun b b' => b.date.NotAfter b'.date
  isPlain_directives : ∀ d ∈ directives, d.IsPlain

namespace Draft

/-- The lines of a draft. -/
def lines (d : Draft) : List (List Char) :=
  d.declarations.map Declaration.line ++ (d.bookings.map Booking.line ++
    ['-', '-', '-'] :: d.directives.map Directive.line)

/-- The text of a draft. -/
def text (d : Draft) : String := String.ofList (['\n'].intercalate d.lines)

/-- The ledger that is drafted; the rows come after the declarations. -/
def ledger (d : Draft) : Ledger Number where
  accounts := d.declarations.map Declaration.account
  transactions := (d.bookings.zipIdx (d.declarations.length + 1)).map fun (b, number) =>
    b.transaction number
  directives := d.directives

end Draft

/-! ### Lines of a text -/

/-- The lines of a text that is joined from lines are the lines of these. -/
theorem lines_intercalate {ls : List (List Char)} (h : ls ≠ []) :
    Text.lines (['\n'].intercalate ls) = ls.flatMap Text.lines := by
  induction ls with
  | nil => exact absurd rfl h
  | cons l rest ih =>
    cases rest with
    | nil => simp
    | cons l' rest =>
      rw [List.intercalate_cons_cons, List.append_assoc, List.singleton_append, Text.lines,
        List.splitOn_append_cons_self, List.flatMap_cons, ← ih (List.cons_ne_nil _ _)]
      rfl

theorem lines_of_isLine {l : List Char} (h : IsLine l) : Text.lines l = [l] :=
  List.splitOn_eq_singleton h

theorem flatMap_lines_of_isLine {ls : List (List Char)} (h : ∀ l ∈ ls, IsLine l) :
    ls.flatMap Text.lines = ls := by
  induction ls with
  | nil => rfl
  | cons l rest ih =>
    obtain ⟨hl, hrest⟩ := List.forall_mem_cons.mp h
    rw [List.flatMap_cons, lines_of_isLine hl, ih hrest, List.singleton_append]

/-! ### Reading line by line -/

section Reading

variable {α : Type} {divided : Bool}

/-- Lines that are not dividers leave the lines after them where they are. -/
theorem readLines_append {front : List (List Char)}
    (h : ∀ raw ∈ front, ∀ number, Line.read divided number raw ≠ .divider)
    (rest : List (List Char)) :
    ∀ number, readLines divided number (front ++ rest) =
      readLines divided number front ++ readLines divided (number + front.length) rest := by
  induction front with
  | nil => exact fun _ => rfl
  | cons raw front ih =>
    obtain ⟨hraw, hfront⟩ := List.forall_mem_cons.mp h
    intro number
    have hstep := ih hfront (number + 1)
    simp only [List.cons_append, readLines, hraw number, decide_false, Bool.or_false, hstep,
      List.length_cons]
    rw [Nat.add_assoc, Nat.add_comm 1]

/-- Lines each of which says what it was written for. -/
theorem readLines_map {line : α → List Char} {said : α → ℕ → Line} {as : List α}
    (h : ∀ a ∈ as, ∀ number, Line.read divided number (line a) = said a number)
    (hsaid : ∀ a number, said a number ≠ .divider) :
    ∀ number, readLines divided number (as.map line) =
      (as.zipIdx number).map fun (a, number) => said a number := by
  induction as with
  | nil => exact fun _ => rfl
  | cons a rest ih =>
    obtain ⟨ha, hrest⟩ := List.forall_mem_cons.mp h
    intro number
    simp [readLines, ha number, hsaid a number, ih hrest (number + 1)]

theorem map_fst_zipIdx {β : Type} (f : α → β) (as : List α) (number : ℕ) :
    (as.zipIdx number).map (fun a => f a.1) = as.map f := by
  rw [← Function.comp_def, ← List.map_map, List.zipIdx_map_fst]

end Reading

/-! ### Rows that are no lines -/

theorem exists_first_not {α : Type} {P : α → Prop} {as : List α} (h : ¬∀ a ∈ as, P a) :
    ∃ before a after, as = before ++ a :: after ∧ (∀ b ∈ before, P b) ∧ ¬P a := by
  induction as with
  | nil => exact absurd (List.forall_mem_nil P) h
  | cons a rest ih =>
    by_cases ha : P a
    · obtain ⟨before, b, after, rfl, hbefore, hb⟩ :=
        ih fun hrest => h (List.forall_mem_cons.mpr ⟨ha, hrest⟩)
      exact ⟨a :: before, b, after, rfl, List.forall_mem_cons.mpr ⟨ha, hbefore⟩, hb⟩
    · exact ⟨[], a, rest, rfl, List.forall_mem_nil P, ha⟩

/-- The last character that is no blank is no bar. -/
def EndsOpen (cs : List Char) : Prop := ∃ c ∈ (trimRight cs).getLast?, c ≠ '|'

theorem EndsOpen.trimRight_append {cs : List Char} (h : EndsOpen cs) (front : List Char) :
    trimRight (front ++ cs) = front ++ trimRight cs := by
  obtain ⟨c, hc, -⟩ := h
  exact dropWhileRight_append (List.ne_nil_of_mem (List.mem_of_mem_getLast? hc))

theorem EndsOpen.append {cs : List Char} (h : EndsOpen cs) (front : List Char) :
    EndsOpen (front ++ cs) := by
  obtain ⟨c, hc, hbar⟩ := id h
  refine ⟨c, ?_, hbar⟩
  rw [h.trimRight_append, List.getLast?_append_of_ne_nil _
    (List.ne_nil_of_mem (List.mem_of_mem_getLast? hc))]
  exact hc

/-- In a trimmed text without bars something stands before a line end. -/
theorem endsOpen_of_trim {front rest : List Char}
    (htrim : trim (front ++ '\n' :: rest) = front ++ '\n' :: rest)
    (hbar : '|' ∉ front) : EndsOpen front := by
  have hhead := (trim_eq_self_iff.mp htrim).1
  have hne : trimRight front ≠ [] := by
    intro hnil
    have hblank : ∀ c ∈ front, isBlank c = true := by
      simpa [trimRight, dropWhileRight, List.dropWhile_eq_nil_iff] using hnil
    cases front with
    | nil => exact absurd (hhead '\n' rfl) (by decide)
    | cons c front =>
      have hc := hhead c rfl
      rw [hblank c List.mem_cons_self] at hc
      cases hc
  refine ⟨_, List.getLast?_eq_some_getLast hne, fun heq => hbar ?_⟩
  rw [← heq]
  have hsuffix := List.dropWhile_suffix isBlank |>.subset
    (List.mem_reverse.mp (List.getLast_mem hne))
  exact List.mem_reverse.mp hsuffix

/-- Cells that do not fit on a line break off in the middle of a cell. -/
theorem exists_break {cells : List (List Char)}
    (hcells : ∀ cell ∈ cells, trim cell = cell ∧ '|' ∉ cell)
    (h : '\n' ∈ cells.flatMap fun cell => spaced cell ++ ['|']) :
    ∃ front rest, (cells.flatMap fun cell => spaced cell ++ ['|']) = front ++ '\n' :: rest ∧
      IsLine front ∧ EndsOpen front := by
  induction cells with
  | nil => cases h
  | cons cell more ih =>
    obtain ⟨⟨htrim, hbar⟩, hmore⟩ := List.forall_mem_cons.mp hcells
    by_cases hcell : '\n' ∈ cell
    · obtain ⟨front, rest, rfl, hfront⟩ := List.eq_append_cons_of_mem hcell
      have hopen : EndsOpen front :=
        endsOpen_of_trim htrim fun hmem => hbar (List.mem_append_left _ hmem)
      refine ⟨' ' :: front,
        rest ++ [' ', '|'] ++ more.flatMap fun cell => spaced cell ++ ['|'], ?_, ?_,
        hopen.append [' ']⟩
      · simp [spaced]
      · simpa [IsLine] using hfront
    · have hspaced : '\n' ∉ spaced cell ++ ['|'] := by simpa [spaced] using hcell
      rw [List.flatMap_cons, List.mem_append] at h
      obtain ⟨front, rest, heq, hline, hopen⟩ := ih hmore (h.resolve_left hspaced)
      refine ⟨spaced cell ++ ['|'] ++ front, rest, ?_, ?_, hopen.append _⟩
      · rw [List.flatMap_cons, heq, List.append_assoc _ front]
      · exact fun hmem => (List.mem_append.mp hmem).elim hspaced hline

/-- A line that starts with a bar and does not end with one is a problem. -/
theorem read_of_endsOpen {front : List Char} (hline : IsLine front) (h : EndsOpen front)
    (number : ℕ) :
    ∃ p, Line.read false number ('|' :: front) = .problem p := by
  have htrim : trim ('|' :: front) = '|' :: trimRight front := h.trimRight_append ['|']
  have hhead : (trim ('|' :: front)).head? = some '|' := by
    rw [htrim]
    rfl
  have hafter : after? ['|'] ('|' :: trimRight front) = some (trimRight front) :=
    after?_eq_some_iff.mpr rfl
  have hlast : (trimRight front).getLast? ≠ some '|' := by
    obtain ⟨c, hc, hbar⟩ := h
    rw [Option.mem_def.mp hc]
    simpa using hbar
  have hseparator : isSeparator ('|' :: trimRight front) = false := by
    rw [isSeparator, hafter]
    simp [hlast]
  have hcells : cells? ('|' :: trimRight front) = none := by
    have hinner : IsLine (trimRight front) := by
      intro hmem
      have hsuffix := (List.dropWhile_suffix isBlank).subset (List.mem_reverse.mp hmem)
      exact hline (List.mem_reverse.mp hsuffix)
    rw [cells?, hafter, Option.bind_some, oneLine?_eq hinner]
    simp [hlast]
  have haccount : Account.ofLine? ('|' :: trimRight front) = none := rfl
  have htransaction : Transaction.ofLine? ('|' :: trimRight front) (some number) = none := by
    rw [Transaction.ofLine?, hcells]
  refine ⟨⟨.unreadable, number, String.ofList ('|' :: trimRight front)⟩, ?_⟩
  rw [Line.read_of_head? hhead (by decide), if_neg Bool.false_ne_true, htrim, Line.ofEntry,
    hseparator, if_neg Bool.false_ne_true, haccount, hcells, htransaction]
  rfl

theorem Booking.exists_problem {b : Booking} (h : ¬IsLine b.line) :
    ∃ front rest, Text.lines b.line = front :: rest ∧
      ∀ number, ∃ p, Line.read false number front = .problem p := by
  have hmem : '\n' ∈ b.cells.flatMap fun cell => spaced cell ++ ['|'] := by
    simpa [IsLine, line, row] using h
  obtain ⟨front, rest, heq, hline, hopen⟩ := exists_break b.cells_plain hmem
  refine ⟨'|' :: front, Text.lines rest, ?_, read_of_endsOpen hline hopen⟩
  rw [line, row, heq, ← List.cons_append]
  exact List.splitOn_append_cons_self_of_not_mem (by simpa [IsLine] using hline) rest

/-! ### Round trips -/

theorem Declaration.isLine_line (a : Declaration) : IsLine a.line := by
  have hmark : '\n' ∉ "@account".toList := by decide
  have htext : '\n' ∉ a.opening.text :=
    fun hmem => absurd (a.opening.isBlank_of_mem_text hmem) (by decide)
  have hname : '\n' ∉ a.name := a.isLine_name
  exact fun hmem => by simpa [hmark, htext, hname] using List.mem_append.mp hmem

theorem Directive.isLine_line {d : Directive} (h : d.IsPlain) : IsLine d.line := by
  intro hmem
  rcases mem_intercalate hmem with heq | ⟨w, hw, hmem⟩
  · exact absurd heq (by decide)
  · exact absurd ((isWord_words h w hw).2 _ hmem) (by decide)

namespace Draft

variable (d : Draft)

theorem lines_text : Text.lines d.text.toList = d.lines.flatMap Text.lines := by
  rw [text, String.toList_ofList, lines_intercalate]
  simp [lines]

/-- Declarations and rows on one line are read for what they say, and reading goes on behind
them. -/
theorem readLines_entries {bookings : List Booking} (h : ∀ b ∈ bookings, IsLine b.line)
    (rest : List (List Char)) :
    readLines false 1 (d.declarations.map Declaration.line ++ (bookings.map Booking.line ++ rest)) =
      (d.declarations.zipIdx 1).map (fun (a, _) => .account a.account) ++
        ((bookings.zipIdx (d.declarations.length + 1)).map (fun (b, number) =>
          .transaction (b.transaction number)) ++
        readLines false (d.declarations.length + 1 + bookings.length) rest) := by
  have hdeclarations := readLines_map (fun a (_ : a ∈ d.declarations) => a.read_line)
    (fun _ _ => nofun) 1
  have hbookings := readLines_map (fun (b : Booking) hb => b.read_line (h b hb))
    (fun _ _ => nofun) (d.declarations.length + 1)
  rw [readLines_append, hdeclarations, readLines_append, List.length_map, List.length_map,
    Nat.add_comm 1, hbookings]
  · intro raw hraw number
    obtain ⟨b, hb, rfl⟩ := List.mem_map.mp hraw
    rw [b.read_line (h b hb)]
    exact nofun
  · intro raw hraw number
    obtain ⟨a, -, rfl⟩ := List.mem_map.mp hraw
    rw [a.read_line]
    exact nofun

theorem isLine_lines (h : ∀ b ∈ d.bookings, IsLine b.line) : ∀ l ∈ d.lines, IsLine l := by
  simp only [lines, List.forall_mem_append, List.forall_mem_cons, List.forall_mem_map]
  exact ⟨fun a _ => a.isLine_line, h, by simp [IsLine],
    fun r hr => Directive.isLine_line (d.isPlain_directives r hr)⟩

/-- The dates of the rows are in order already. -/
theorem mergeSort_transactions : d.ledger.transactions.mergeSort (fun s t =>
    decide (s.date ≤ t.date)) = d.ledger.transactions := by
  refine List.mergeSort_of_pairwise ?_
  have hzip : (d.bookings.zipIdx (d.declarations.length + 1)).Pairwise fun s t =>
      s.1.date.NotAfter t.1.date := by
    rw [← List.pairwise_map (f := Prod.fst) (R := fun b b' : Booking => b.date.NotAfter b'.date),
      List.zipIdx_map_fst]
    exact d.sorted
  rw [ledger, List.pairwise_map]
  refine hzip.imp fun {s t} hst => ?_
  exact decide_eq_true (Date.isoText_le t.1.valid_date hst)

theorem ofText_text (h : ∀ b ∈ d.bookings, IsLine b.line) : ofText d.text = d.ledger := by
  have hdivider : ∀ number, Line.read false number ['-', '-', '-'] = .divider := fun _ => rfl
  have hdirectives := readLines_map (fun r hr => Directive.read_line (d.isPlain_directives r hr))
    (fun _ _ => nofun) (d.declarations.length + 1 + d.bookings.length + 1)
  have hread : readLines false 1 (Text.lines d.text.toList) =
      (d.declarations.zipIdx 1).map (fun (a, _) => .account a.account) ++
        ((d.bookings.zipIdx (d.declarations.length + 1)).map (fun (b, number) =>
          .transaction (b.transaction number)) ++
        .divider :: (d.directives.zipIdx (d.declarations.length + 1 + d.bookings.length + 1)).map
          fun (r, _) => .directive r) := by
    rw [d.lines_text, flatMap_lines_of_isLine (d.isLine_lines h), lines, d.readLines_entries h,
      readLines, hdivider]
    simp only [decide_true, Bool.or_true, hdirectives]
  have hsort := d.mergeSort_transactions
  rw [ofText, hread, ofLines]
  simp only [List.filterMap_append, List.filterMap_map, List.filterMap_cons, Function.comp_def,
    Line.account?, Line.transaction?, Line.directive?, Line.problem?]
  simpa [map_fst_zipIdx, ledger] using hsort

/-- Of the rows that are no lines the first is read as far as its first line end. -/
theorem exists_problem (h : ¬∀ b ∈ d.bookings, IsLine b.line) :
    ∃ p, p ∈ (ofText d.text).problems := by
  obtain ⟨before, b, after, hbookings, hbefore, hb⟩ := exists_first_not h
  obtain ⟨front, more, hlines, hproblem⟩ := Booking.exists_problem hb
  have hdeclarations : (d.declarations.map Declaration.line).flatMap Text.lines =
      d.declarations.map Declaration.line :=
    flatMap_lines_of_isLine (List.forall_mem_map.mpr fun a _ => a.isLine_line)
  have hrows : (before.map Booking.line).flatMap Text.lines = before.map Booking.line :=
    flatMap_lines_of_isLine (List.forall_mem_map.mpr hbefore)
  let rest := after.map Booking.line ++ ['-', '-', '-'] :: d.directives.map Directive.line
  have hsplit : d.lines =
      d.declarations.map Declaration.line ++ (before.map Booking.line ++ b.line :: rest) := by
    simp [rest, lines, hbookings]
  have htext : Text.lines d.text.toList = d.declarations.map Declaration.line ++
      (before.map Booking.line ++ front :: (more ++ rest.flatMap Text.lines)) := by
    rw [d.lines_text, hsplit, List.flatMap_append, List.flatMap_append, List.flatMap_cons,
      hdeclarations, hrows, hlines]
    rfl
  obtain ⟨p, hp⟩ := hproblem (d.declarations.length + 1 + before.length)
  refine ⟨p, List.mem_filterMap.mpr ⟨.problem p, ?_, rfl⟩⟩
  rw [htext, d.readLines_entries hbefore, readLines, hp]
  simp

end Draft

/-- **A ledger that is written is read back**, with the number of its line for each transaction
and no problem, exactly if every row is one line: an account name may hold digits, signs and
spaces, a description anything but a bar, and tags anything but blanks and bars. -/
theorem ofText_text_iff (d : Draft) :
    ofText d.text = d.ledger ↔ ∀ b ∈ d.bookings, IsLine b.line := by
  refine ⟨fun heq => ?_, d.ofText_text⟩
  by_contra h
  obtain ⟨p, hp⟩ := d.exists_problem h
  rw [heq] at hp
  cases hp

/-- A transfer whose description has a line end. -/
def brokenDraft : Draft where
  declarations :=
    [⟨"Cash 1".toList, ⟨none, "10".toList, "50".toList, nofun, by decide, by decide, by decide⟩,
      by decide, by decide, (by decide : '\n' ∉ "Cash 1".toList)⟩]
  bookings :=
    [{ date := ⟨2024, 1, 1⟩
       description := "Tea\nand milk".toList
       amount := ⟨some '-', ['4'], [], by simp, by decide, by decide, by decide⟩
       account := "Cash 1".toList
       target := some "Shop".toList
       tags := ["food".toList]
       valid_date := by decide
       trim_description := by decide
       bar_notMem_description := by decide
       isAccountName_account := ⟨by decide, by decide, by decide, by decide⟩
       isAccountName_target := by
         rintro _ ⟨⟩
         exact ⟨by decide, by decide, by decide, by decide⟩
       tags_plain := List.forall_mem_singleton.mpr fun c hc =>
         ⟨by simpa using List.all_eq_true.mp (by decide : "food".toList.all (!isBlank ·)) c hc,
           fun heq => (by decide : '|' ∉ "food".toList) (heq ▸ hc)⟩ }]
  directives := [.chart .pie .monthly]
  sorted := by simp
  isPlain_directives := by simp [Directive.IsPlain]

example : brokenDraft.text = "@account Cash 1 10.50\n" ++
    "| 2024-01-01 | Tea\nand milk | -4 | Cash 1 -> Shop | #food |\n---\nchart pie monthly" := by
  decide +kernel

/-- The row is read as two lines that are no rows. -/
theorem not_forall_ofText_text : ¬∀ d : Draft, ofText d.text = d.ledger := by
  intro h
  have hproblems : (ofText brokenDraft.text).problems ≠ [] := by decide +kernel
  exact hproblems (congrArg problems (h brokenDraft))

end NoteGraph.Ledger
