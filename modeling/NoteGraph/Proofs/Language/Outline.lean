import NoteGraph.Proofs.Language.Blocks

/-!
# Lines and their headings

The outline of a document keeps its lines in order, each under its heading. Read from the first
block to the last, it says what the lines say from the first node heading on: blank lines outside of
fences say nothing, headings there give a name, and every other line stands as it is, in fences
whatever it looks like. And a line is found in the section of the last heading before it, a section
in the block of the last node heading before it.

The places of a document are counted from its start, and a place is outside of fences if the number
of fence lines before it is even. Main statement: the outline is what the places of the lines say it
is (`outline_keeps_lines`).
-/

namespace NoteGraph.Language

/-! ### What a line says to the outline -/

namespace Entry

/-- The text of a node heading. -/
def heading? : Entry → Option String
  | heading text => some text
  | _ => none

/-- The name of a morph heading. -/
def morph? : Entry → Option String
  | morph name => some name
  | _ => none

/-- A line of content. -/
def line? : Entry → Option String
  | content line => some line
  | _ => none

end Entry

/-- What a line says to the outline, behind the lines before it. -/
def entryBehind? (before : List String) (line : String) : Option Entry :=
  if Even (before.countP isFence) then
    match LineKind.ofLine line with
    | .blank => none
    | .nodeHeading => some (.heading (Text.trimmed line.toList))
    | .morphHeading => some (.morph (morphName line))
    | .fence | .relation | .function | .attribute | .text => some (.content line)
  else some (.content line)

/-- What the line at a place of some lines says, behind the lines before them. -/
def entryAt? (before lines : List String) (place : ℕ) : Option Entry :=
  lines[place]?.bind (entryBehind? (before ++ lines.take place))

/-! ### The outline by places -/

/-- The last place before a given one at which something holds. -/
def lastBefore? (p : ℕ → Bool) : ℕ → Option ℕ
  | 0 => none
  | place + 1 => if p place then some place else lastBefore? p place

section Places

variable {α : Type} (es : ℕ → Option Entry) (count : ℕ)

/-- A node heading stands at a place. -/
def opensNode (place : ℕ) : Bool := ((es place).bind Entry.heading?).isSome

/-- A heading of a node or a morph stands at a place. -/
def opensSection (place : ℕ) : Bool := opensNode es place || ((es place).bind Entry.morph?).isSome

/-- Of the values at the first places those for which the last place before them with some
property is a given one, or none has it. -/
def valuesUnder (p : ℕ → Bool) (value? : ℕ → Option α) (owner : Option ℕ) : List α :=
  (List.range count).filterMap fun place =>
    if lastBefore? p place = owner then value? place else none

/-- The lines whose last heading stands at a place. -/
def linesUnder (owner : Option ℕ) : List String :=
  valuesUnder count (opensSection es) (fun place => (es place).bind Entry.line?) owner

/-- The section of the morph heading at a place. -/
def sectionAt? (place : ℕ) : Option MorphSection :=
  ((es place).bind Entry.morph?).map fun name => ⟨name, linesUnder es count (some place)⟩

/-- The sections whose last node heading stands at a place. -/
def sectionsUnder (owner : Option ℕ) : List MorphSection :=
  valuesUnder count (opensNode es) (sectionAt? es count) owner

/-- The block of the node heading at a place. -/
def blockAt? (place : ℕ) : Option NodeBlock :=
  ((es place).bind Entry.heading?).map fun text =>
    ⟨text, linesUnder es count (some place), sectionsUnder es count (some place)⟩

end Places

/-! ### The outline in order -/

/-- What a section says in order. -/
def MorphSection.entries (m : MorphSection) : List Entry := .morph m.name :: m.lines.map .content

/-- What a block says in order. -/
def NodeBlock.entries (b : NodeBlock) : List Entry :=
  .heading b.heading :: (b.body.map .content ++ b.morphs.flatMap MorphSection.entries)

/-! ### Places behind a first line -/

section Behind

variable {α : Type} {p : ℕ → Bool} {place : ℕ}

theorem filterMap_range_succ (value? : ℕ → Option α) (count : ℕ) :
    (List.range (count + 1)).filterMap value? =
      (value? 0).toList ++ (List.range count).filterMap fun place => value? (place + 1) := by
  rw [List.range_succ_eq_map, List.filterMap_cons, List.filterMap_map]
  cases value? 0 <;> rfl

theorem lastBefore?_succ : lastBefore? p (place + 1) =
    ((lastBefore? (fun i => p (i + 1)) place).map (· + 1)).or (if p 0 then some 0 else none) := by
  induction place with
  | zero => rfl
  | succ place ih =>
    rw [lastBefore?, ih, lastBefore?]
    by_cases h : p (place + 1) = true
    · rw [if_pos h, if_pos h]
      rfl
    · rw [if_neg h, if_neg h]

theorem lastBefore?_succ_eq_succ {owner : ℕ} : lastBefore? p (place + 1) = some (owner + 1) ↔
    lastBefore? (fun i => p (i + 1)) place = some owner := by
  rw [lastBefore?_succ]
  cases lastBefore? (fun i => p (i + 1)) place <;> split_ifs <;> simp

theorem lastBefore?_succ_eq_zero : lastBefore? p (place + 1) = some 0 ↔
    p 0 = true ∧ lastBefore? (fun i => p (i + 1)) place = none := by
  rw [lastBefore?_succ]
  cases lastBefore? (fun i => p (i + 1)) place <;> split_ifs with h <;> simp [h]

theorem lastBefore?_succ_eq_none : lastBefore? p (place + 1) = none ↔
    p 0 = false ∧ lastBefore? (fun i => p (i + 1)) place = none := by
  rw [lastBefore?_succ]
  cases lastBefore? (fun i => p (i + 1)) place <;> split_ifs with h <;> simp [h]

variable {count : ℕ} {value? : ℕ → Option α}

theorem valuesUnder_succ (owner : Option ℕ) : valuesUnder (count + 1) p value? owner =
    (if owner = none then value? 0 else none).toList ++ (List.range count).filterMap fun place =>
      if lastBefore? p (place + 1) = owner then value? (place + 1) else none := by
  rw [valuesUnder, filterMap_range_succ]
  simp only [lastBefore?, eq_comm]

theorem valuesUnder_succ_succ (owner : ℕ) : valuesUnder (count + 1) p value? (some (owner + 1)) =
    valuesUnder count (fun i => p (i + 1)) (fun i => value? (i + 1)) (some owner) := by
  simp only [valuesUnder_succ, lastBefore?_succ_eq_succ, reduceCtorEq, if_false,
    Option.toList_none, List.nil_append]
  rfl

theorem valuesUnder_succ_zero : valuesUnder (count + 1) p value? (some 0) =
    if p 0 then valuesUnder count (fun i => p (i + 1)) (fun i => value? (i + 1)) none else [] := by
  simp only [valuesUnder_succ, lastBefore?_succ_eq_zero, reduceCtorEq, if_false,
    Option.toList_none, List.nil_append]
  cases p 0 with
  | true => simp [valuesUnder]
  | false => simp

theorem valuesUnder_succ_none :
    valuesUnder (count + 1) p value? none = (value? 0).toList ++
      if p 0 then []
      else valuesUnder count (fun i => p (i + 1)) (fun i => value? (i + 1)) none := by
  simp only [valuesUnder_succ, lastBefore?_succ_eq_none, if_true]
  cases p 0 with
  | true => simp
  | false => simp [valuesUnder]

end Behind

/-! ### Grouping by places -/

/-- The grouping of the entries at the first places. -/
def groupingAt (es : ℕ → Option Entry) (count : ℕ) : Grouping where
  lines := linesUnder es count none
  morphs := sectionsUnder es count none
  blocks := (List.range count).filterMap (blockAt? es count)

section Grouping

variable (es : ℕ → Option Entry) (count : ℕ)

theorem linesUnder_succ_succ (owner : ℕ) : linesUnder es (count + 1) (some (owner + 1)) =
    linesUnder (fun i => es (i + 1)) count (some owner) :=
  valuesUnder_succ_succ owner

theorem linesUnder_succ_zero : linesUnder es (count + 1) (some 0) =
    if opensSection es 0 then linesUnder (fun i => es (i + 1)) count none else [] :=
  valuesUnder_succ_zero

theorem linesUnder_succ_none : linesUnder es (count + 1) none =
    ((es 0).bind Entry.line?).toList ++
      if opensSection es 0 then [] else linesUnder (fun i => es (i + 1)) count none :=
  valuesUnder_succ_none

theorem sectionAt?_succ (place : ℕ) : sectionAt? es (count + 1) (place + 1) =
    sectionAt? (fun i => es (i + 1)) count place := by
  simp only [sectionAt?, linesUnder_succ_succ]

theorem sectionsUnder_succ_succ (owner : ℕ) : sectionsUnder es (count + 1) (some (owner + 1)) =
    sectionsUnder (fun i => es (i + 1)) count (some owner) := by
  simp only [sectionsUnder, valuesUnder_succ_succ, sectionAt?_succ]
  rfl

theorem sectionsUnder_succ_zero : sectionsUnder es (count + 1) (some 0) =
    if opensNode es 0 then sectionsUnder (fun i => es (i + 1)) count none else [] := by
  simp only [sectionsUnder, valuesUnder_succ_zero, sectionAt?_succ]
  rfl

theorem sectionsUnder_succ_none : sectionsUnder es (count + 1) none =
    (sectionAt? es (count + 1) 0).toList ++
      if opensNode es 0 then [] else sectionsUnder (fun i => es (i + 1)) count none := by
  simp only [sectionsUnder, valuesUnder_succ_none, sectionAt?_succ]
  rfl

theorem blockAt?_succ (place : ℕ) : blockAt? es (count + 1) (place + 1) =
    blockAt? (fun i => es (i + 1)) count place := by
  simp only [blockAt?, linesUnder_succ_succ, sectionsUnder_succ_succ]

/-- The entry at the first place is put in front of the grouping of the others. -/
theorem groupingAt_succ : groupingAt es (count + 1) =
    (es 0).toList.foldr Grouping.cons (groupingAt (fun i => es (i + 1)) count) := by
  simp only [groupingAt, linesUnder_succ_none, sectionsUnder_succ_none, filterMap_range_succ,
    blockAt?_succ]
  generalize (List.range count).filterMap (blockAt? (fun i => es (i + 1)) count) = blocks
  cases hentry : es 0 with
  | none => simp [sectionAt?, blockAt?, opensSection, opensNode, hentry]
  | some entry =>
    cases entry with
    | content line =>
      simp [sectionAt?, blockAt?, opensSection, opensNode, hentry, Entry.line?, Entry.morph?,
        Entry.heading?, Grouping.cons]
    | morph name =>
      simp [sectionAt?, blockAt?, opensSection, opensNode, hentry, Entry.line?, Entry.morph?,
        Entry.heading?, Grouping.cons, linesUnder_succ_zero]
    | heading text =>
      simp [sectionAt?, blockAt?, opensSection, opensNode, hentry, Entry.line?, Entry.morph?,
        Entry.heading?, Grouping.cons, linesUnder_succ_zero, sectionsUnder_succ_zero]

theorem foldr_cons_eq_groupingAt : ((List.range count).filterMap es).foldr Grouping.cons {} =
    groupingAt es count := by
  induction count generalizing es with
  | zero => rfl
  | succ count ih =>
    rw [filterMap_range_succ, List.foldr_append, ih, groupingAt_succ]

end Grouping

/-! ### The entries of a document -/

section Entries

variable {before lines : List String} {inFence : Bool}

theorem entries_cons (hflag : inFence = false ↔ Even (before.countP isFence)) (line : String)
    (rest : List String) : entries inFence (line :: rest) =
      (entryBehind? before line).toList ++ entries (inFence != isFence line) rest := by
  rw [entries, entryBehind?]
  cases inFence with
  | true =>
    rw [if_neg fun heven => Bool.noConfusion (hflag.mpr heven), if_pos rfl, Bool.true_bne]
    rfl
  | false =>
    have hfence : isFence line = decide (LineKind.ofLine line = .fence) := by
      rw [Bool.eq_iff_iff, isFence_iff, decide_eq_true_iff]
    rw [if_pos (hflag.mp rfl), if_neg Bool.false_ne_true, hfence]
    cases LineKind.ofLine line <;> rfl

theorem entryAt?_zero (line : String) (rest : List String) :
    entryAt? before (line :: rest) 0 = entryBehind? before line := by
  rw [entryAt?, List.take_zero, List.append_nil]
  rfl

theorem entryAt?_succ (line : String) (rest : List String) (place : ℕ) :
    entryAt? before (line :: rest) (place + 1) = entryAt? (before ++ [line]) rest place := by
  rw [entryAt?, entryAt?, List.getElem?_cons_succ, List.take_succ_cons, List.append_cons]

/-- A document says what its lines say at their places. -/
theorem entries_eq (hflag : inFence = false ↔ Even (before.countP isFence)) :
    entries inFence lines = (List.range lines.length).filterMap (entryAt? before lines) := by
  induction lines generalizing before inFence with
  | nil => rfl
  | cons line rest ih =>
    have hplaces := filterMap_range_succ (entryAt? before (line :: rest)) rest.length
    simp only [entryAt?_zero, entryAt?_succ] at hplaces
    rw [entries_cons hflag, ih (flag_concat hflag line), List.length_cons, hplaces]

end Entries

/-! ### Nothing is lost -/

/-- What a grouping says in order. -/
def Grouping.entries (g : Grouping) : List Entry :=
  g.lines.map .content ++ g.morphs.flatMap MorphSection.entries ++
    g.blocks.flatMap NodeBlock.entries

theorem Grouping.entries_cons (entry : Entry) (g : Grouping) :
    (g.cons entry).entries = entry :: g.entries := by
  cases entry <;> simp [Grouping.cons, Grouping.entries, MorphSection.entries, NodeBlock.entries]

theorem entries_foldr_cons (es : List Entry) :
    (es.foldr Grouping.cons {}).entries = es := by
  induction es with
  | nil => rfl
  | cons entry rest ih => rw [List.foldr_cons, Grouping.entries_cons, ih]

/-- A grouping comes to its blocks at the first node heading. -/
theorem Grouping.dropWhile_entries (g : Grouping) :
    g.entries.dropWhile (·.heading?.isNone) = g.blocks.flatMap NodeBlock.entries := by
  have hfront : ∀ e ∈ g.lines.map .content ++ g.morphs.flatMap MorphSection.entries,
      e.heading?.isNone = true := by
    intro e he
    simp only [MorphSection.entries, List.mem_append, List.mem_map, List.mem_flatMap,
      List.mem_cons] at he
    obtain ⟨line, -, rfl⟩ | ⟨m, -, rfl | ⟨line, -, rfl⟩⟩ := he <;> rfl
  rw [Grouping.entries, List.dropWhile_append_of_pos hfront]
  cases g.blocks with
  | nil => rfl
  | cons block rest => rfl

/-- **The outline keeps every line in its section.** In order it says what the lines say from the
first node heading on. It has a block for each node heading outside of fences, with a section for
each morph heading whose last node heading this is; and a block or a section has the lines whose
last heading is its own. -/
theorem outline_keeps_lines (lines : List String) :
    (outline lines).flatMap NodeBlock.entries =
        ((List.range lines.length).filterMap (entryAt? [] lines)).dropWhile (·.heading?.isNone) ∧
      outline lines =
        (List.range lines.length).filterMap (blockAt? (entryAt? [] lines) lines.length) := by
  have hentries : entries false lines = (List.range lines.length).filterMap (entryAt? [] lines) :=
    entries_eq (iff_of_true rfl Even.zero)
  constructor
  · rw [← hentries, outline, groupEntries, ← Grouping.dropWhile_entries, entries_foldr_cons]
  · rw [outline, groupEntries, hentries, foldr_cons_eq_groupingAt]
    rfl

/-- A heading in a fence is a line of its section, and so is a blank line there; a section and a
fence in front of the first node are left out. -/
example : outline ["## lost", "x", "```", "# fenced", "```", " # a ", "", "mass: 5", "## m", "```",
      "# b", "", "```", "y", "# c"] =
    [⟨"# a", ["mass: 5"], [⟨"m", ["```", "# b", "", "```", "y"]⟩]⟩, ⟨"# c", [], []⟩] := by
  decide +kernel

end NoteGraph.Language
