import NoteGraph.Proofs.Language.Scanning

/-!
# Blocks of a document

A document is split into mindmaps and plain blocks. A plain block has its lines as they stand, a
mindmap has its heading and its items; nothing is left out but the blank lines among the items and
directly behind them. Every block starts outside of fences, and outside of fences no line of a plain
block opens a mindmap.

`SplitsInto` says this of a list of blocks, and where each of them ends, so that only one list is
left. Main statement: it is the one that a document is split into (`splitsInto_iff`).
-/

namespace NoteGraph.Language

variable {before lines after body rest : List String} {line : String} {block : Block}

/-- Behind `before`, none of some lines that stands outside of fences opens a mindmap. -/
def OpensNoMindmap (before lines : List String) : Prop :=
  ∀ front line rest, lines = front ++ line :: rest → Even ((before ++ front).countP isFence) →
    isMindmapHeading line = false

/-- A block of a document, with the lines that it stands for, the lines before them and the lines
after them. -/
inductive IsBlock (before : List String) : Block → List String → List String → Prop where
  | mindmap {heading : String} {items body after : List String}
      (outside : Even (before.countP isFence)) (opens : isMindmapHeading heading = true)
      (listed : ∀ item ∈ items, isMindmapItem item = true)
      (kept : body.filter (!isBlankLine ·) = items)
      (ends : ∀ line ∈ after.head?, isBlankLine line = false ∧ isMindmapItem line = false) :
      IsBlock before (.mindmap (heading :: items)) (heading :: body) after
  | plain {lines after : List String} (outside : Even (before.countP isFence))
      (nonempty : lines ≠ []) (opensNone : OpensNoMindmap before lines)
      (ends : ∀ line ∈ after.head?,
        isMindmapHeading line = true ∧ Even ((before ++ lines).countP isFence)) :
      IsBlock before (.plain lines) lines after

/-- The lines behind `before` are, one after another, those that some blocks stand for. -/
inductive SplitsInto : List String → List String → List Block → Prop where
  | nil {before : List String} : SplitsInto before [] []
  | cons {before lines after : List String} {block : Block} {blocks : List Block}
      (first : IsBlock before block lines after)
      (rest : SplitsInto (before ++ lines) after blocks) :
      SplitsInto before (lines ++ after) (block :: blocks)

/-! ### Items -/

/-- Items are taken up to the first line that is neither blank nor an item. -/
theorem takeItems_append
    (hbody : ∀ line ∈ body, isBlankLine line = true ∨ isMindmapItem line = true)
    (hends : ∀ line ∈ after.head?, isBlankLine line = false ∧ isMindmapItem line = false) :
    takeItems (body ++ after) = (body.filter (!isBlankLine ·), after) := by
  induction body with
  | nil =>
    cases after with
    | nil => rfl
    | cons line after =>
      obtain ⟨hblank, hitem⟩ := hends line rfl
      simp [takeItems, hblank, hitem]
  | cons line body ih =>
    obtain ⟨hline, hbody⟩ := List.forall_mem_cons.mp hbody
    rw [List.cons_append, takeItems, ih hbody]
    cases hblank : isBlankLine line with
    | true => simp [hblank]
    | false =>
      rw [hblank] at hline
      simp [hblank, hline.resolve_left Bool.false_ne_true]

/-- A document starts with blank lines and items up to some line. -/
theorem exists_items (lines : List String) : ∃ body after, lines = body ++ after ∧
    (∀ line ∈ body, isBlankLine line = true ∨ isMindmapItem line = true) ∧
      ∀ line ∈ after.head?, isBlankLine line = false ∧ isMindmapItem line = false := by
  refine ⟨lines.takeWhile fun line => isBlankLine line || isMindmapItem line,
    lines.dropWhile fun line => isBlankLine line || isMindmapItem line,
    List.takeWhile_append_dropWhile.symm, fun line hline => ?_, fun line hline => ?_⟩
  · simpa using List.mem_takeWhile_imp hline
  · have hnot := List.head?_dropWhile_not (fun line => isBlankLine line || isMindmapItem line) lines
    rw [Option.mem_def.mp hline] at hnot
    simpa using hnot

/-- Neither blank lines nor items are fence lines. -/
theorem isBody_of_items (h : ∀ line ∈ body, isBlankLine line = true ∨ isMindmapItem line = true) :
    IsBody body := by
  intro line hline
  by_contra hfence
  have hfence := eq_true_of_ne_false hfence
  rcases h line hline with hblank | hitem
  · rw [isBlankLine_of_isFence hfence] at hblank
    cases hblank
  · rw [isMindmapItem_of_isFence hfence] at hitem
    cases hitem

/-! ### Plain lines -/

theorem even_countP_concat : Even ((before ++ [line]).countP isFence) ↔
    (Even (before.countP isFence) ↔ isFence line = false) := by
  cases hline : isFence line <;> simp [hline, Nat.even_add_one]

theorem opensNoMindmap_cons : OpensNoMindmap before (line :: rest) ↔
    (Even (before.countP isFence) → isMindmapHeading line = false) ∧
      OpensNoMindmap (before ++ [line]) rest := by
  constructor
  · intro h
    refine ⟨fun heven => h [] line rest rfl (by rwa [List.append_nil]), ?_⟩
    intro front other more heq heven
    refine h (line :: front) other more (by rw [heq, List.cons_append]) ?_
    rwa [List.append_assoc, List.singleton_append] at heven
  · rintro ⟨hline, hrest⟩ front other more heq heven
    cases front with
    | nil =>
      obtain ⟨rfl, -⟩ := List.cons.inj heq
      rw [List.append_nil] at heven
      exact hline heven
    | cons first front =>
      obtain ⟨rfl, hmore⟩ := List.cons.inj heq
      refine hrest front other more hmore ?_
      rwa [List.append_assoc, List.singleton_append]

section Flag

variable {inFence : Bool}

/-- The flag of a scanner goes with the number of fence lines that it has passed. -/
theorem flag_concat (hflag : inFence = false ↔ Even (before.countP isFence)) (line : String) :
    (inFence != isFence line) = false ↔ Even ((before ++ [line]).countP isFence) := by
  rw [even_countP_concat, ← hflag]
  cases inFence <;> cases isFence line <;> simp

/-- Plain lines are taken up to the first mindmap heading outside of fences. -/
theorem takePlain_append (hflag : inFence = false ↔ Even (before.countP isFence))
    (hopens : OpensNoMindmap before body)
    (hends : ∀ line ∈ after.head?,
      isMindmapHeading line = true ∧ Even ((before ++ body).countP isFence)) :
    takePlain inFence (body ++ after) = (body, after) := by
  induction body generalizing before inFence with
  | nil =>
    cases after with
    | nil => rfl
    | cons line after =>
      obtain ⟨hheading, heven⟩ := hends line rfl
      rw [List.append_nil] at heven
      simp [takePlain, hheading, hflag.mpr heven]
  | cons line body ih =>
    obtain ⟨hline, hbody⟩ := opensNoMindmap_cons.mp hopens
    rw [List.append_cons] at hends
    have hplain : (!inFence && isMindmapHeading line) = false := by
      cases inFence with
      | true => rfl
      | false => exact hline (hflag.mp rfl)
    rw [List.cons_append, takePlain, hplain, ih (flag_concat hflag line) hbody hends]
    rfl

/-- A document starts with plain lines up to some mindmap heading outside of fences. -/
theorem exists_plain (before lines : List String) : ∃ body after, lines = body ++ after ∧
    OpensNoMindmap before body ∧ ∀ line ∈ after.head?,
      isMindmapHeading line = true ∧ Even ((before ++ body).countP isFence) := by
  induction lines generalizing before with
  | nil => exact ⟨[], [], rfl, fun _ _ _ h => by simp at h, fun _ h => by cases h⟩
  | cons line rest ih =>
    by_cases hopens : isMindmapHeading line = true ∧ Even (before.countP isFence)
    · refine ⟨[], line :: rest, rfl, fun _ _ _ h => by simp at h, ?_⟩
      intro other hother
      obtain rfl := Option.some.inj hother
      rwa [List.append_nil]
    · obtain ⟨body, after, rfl, hbody, hends⟩ := ih (before ++ [line])
      refine ⟨line :: body, after, rfl, opensNoMindmap_cons.mpr ⟨fun heven => ?_, hbody⟩, ?_⟩
      · exact eq_false_of_ne_true fun hheading => hopens ⟨hheading, heven⟩
      · rwa [List.append_cons]

end Flag

/-! ### Blocks -/

namespace IsBlock

/-- The lines of a mindmap behind its heading are blank lines and items. -/
theorem blank_or_item {items : List String} (listed : ∀ item ∈ items, isMindmapItem item = true)
    (kept : body.filter (!isBlankLine ·) = items) :
    ∀ line ∈ body, isBlankLine line = true ∨ isMindmapItem line = true := by
  intro line hline
  cases hblank : isBlankLine line with
  | true => exact Or.inl rfl
  | false =>
    refine Or.inr (listed line ?_)
    rw [← kept]
    exact List.mem_filter.mpr ⟨hline, by rw [hblank, Bool.not_false]⟩

/-- A block that does not end the document leaves it outside of fences. -/
theorem even_after (h : IsBlock before block lines after) (hafter : after ≠ []) :
    Even ((before ++ lines).countP isFence) := by
  cases h with
  | @mindmap heading items body after outside opens listed kept =>
    have hheading : isFence heading = false := by
      by_contra hfence
      rw [isMindmapHeading_of_isFence (eq_true_of_ne_false hfence)] at opens
      cases opens
    have hbody : IsBody (heading :: body) :=
      List.forall_mem_cons.mpr ⟨hheading, isBody_of_items (blank_or_item listed kept)⟩
    rwa [List.countP_append,
      List.countP_eq_zero.mpr fun line hline => ne_true_of_eq_false (hbody line hline)]
  | plain _ _ _ ends =>
    obtain ⟨line, rest, rfl⟩ := List.exists_cons_of_ne_nil hafter
    exact (ends line rfl).2

theorem ne_nil (h : IsBlock before block lines after) : lines ≠ [] := by
  cases h with
  | mindmap => exact List.cons_ne_nil _ _
  | plain _ nonempty => exact nonempty

/-- Splitting goes on behind a block. -/
theorem splitBlocks_append (h : IsBlock before block lines after) :
    splitBlocks (lines ++ after) = block :: splitBlocks after := by
  cases h with
  | mindmap outside opens listed kept ends =>
    rw [List.cons_append, splitBlocks_cons, if_pos opens,
      takeItems_append (blank_or_item listed kept) ends, kept]
  | plain outside nonempty opensNone ends =>
    obtain ⟨line, rest, rfl⟩ := List.exists_cons_of_ne_nil nonempty
    have hfirst := (opensNoMindmap_cons.mp opensNone).1 outside
    have htake : takePlain false (line :: rest ++ after) = (line :: rest, after) :=
      takePlain_append (iff_of_true rfl outside) opensNone ends
    rw [List.cons_append] at htake ⊢
    rw [splitBlocks_cons, hfirst, if_neg Bool.false_ne_true, htake]

end IsBlock

/-- Every document that is not empty starts with a block. -/
theorem exists_isBlock (heven : Even (before.countP isFence)) (hlines : lines ≠ []) :
    ∃ block front after, lines = front ++ after ∧ IsBlock before block front after := by
  obtain ⟨line, rest, rfl⟩ := List.exists_cons_of_ne_nil hlines
  cases hheading : isMindmapHeading line with
  | true =>
    obtain ⟨body, after, rfl, hbody, hends⟩ := exists_items rest
    refine ⟨_, line :: body, after, rfl, .mindmap heven hheading (fun item hitem => ?_) rfl hends⟩
    obtain ⟨hmem, hblank⟩ := List.mem_filter.mp hitem
    exact (hbody item hmem).resolve_left (by simpa using hblank)
  | false =>
    obtain ⟨body, after, rfl, hbody, hends⟩ := exists_plain (before ++ [line]) rest
    refine ⟨_, line :: body, after, rfl, .plain heven (List.cons_ne_nil _ _) ?_ ?_⟩
    · exact opensNoMindmap_cons.mpr ⟨fun _ => hheading, hbody⟩
    · rwa [List.append_cons]

theorem exists_splitsInto (lines : List String) :
    ∀ {before : List String}, (lines ≠ [] → Even (before.countP isFence)) →
      ∃ blocks, SplitsInto before lines blocks := by
  induction hn : lines.length using Nat.strong_induction_on generalizing lines with
  | _ n ih =>
    intro before heven
    by_cases hlines : lines = []
    · exact ⟨[], hlines ▸ .nil⟩
    · obtain ⟨block, front, after, rfl, hblock⟩ := exists_isBlock (heven hlines) hlines
      have hlength : after.length < n := by
        have := List.length_pos_iff.mpr hblock.ne_nil
        rw [List.length_append] at hn
        omega
      obtain ⟨blocks, hblocks⟩ := ih after.length hlength after rfl hblock.even_after
      exact ⟨block :: blocks, .cons hblock hblocks⟩

theorem SplitsInto.eq_splitBlocks {blocks : List Block} (h : SplitsInto before lines blocks) :
    blocks = splitBlocks lines := by
  induction h with
  | nil => rw [splitBlocks]
  | cons first _ ih => rw [first.splitBlocks_append, ih]

/-- **Splitting loses nothing**: a document is split into the one list of blocks that stand, one
after another, for all its lines. A mindmap stands for its heading, its items and the blank lines
among and behind these; a plain block for its lines, of which there are some. Every block starts
outside of fences, and a plain block ends in front of the first mindmap heading that does. -/
theorem splitsInto_iff {lines : List String} {blocks : List Block} :
    SplitsInto [] lines blocks ↔ blocks = splitBlocks lines := by
  refine ⟨SplitsInto.eq_splitBlocks, ?_⟩
  rintro rfl
  obtain ⟨blocks, hblocks⟩ : ∃ blocks, SplitsInto [] lines blocks :=
    exists_splitsInto lines fun _ => Even.zero
  exact hblocks.eq_splitBlocks ▸ hblocks

end NoteGraph.Language
