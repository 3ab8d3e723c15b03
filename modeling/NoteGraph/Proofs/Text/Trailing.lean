import Mathlib.Data.List.TakeDrop
import Mathlib.Data.List.TakeWhile
import NoteGraph.Language.Attribute
import NoteGraph.Text.Readings
import NoteGraph.Text.WordCharacter

/-!
# Blanks at the end of a line

Lines are read by recognisers that are put together from a few parts: a mark, a run of
characters, a shortest or longest run before something else. Most of them ignore blanks at the
end of a line, which follows part by part (`Ignores`). Some ask for at least one character and
take a blank for it: these ignore blanks at the end unless two of them change what is recognised
(`Settles`), and that only where nothing but blanks follows a mark (`ChangesAfter`).
-/

namespace NoteGraph.Text

/-! ### Blanks -/

/-- The code points of the blanks. -/
def blankCodes : List ℕ :=
  [9, 10, 11, 12, 13, 28, 29, 30, 31, 32, 0x85, 0xA0, 0x1680, 0x2000, 0x2001, 0x2002, 0x2003,
    0x2004, 0x2005, 0x2006, 0x2007, 0x2008, 0x2009, 0x200A, 0x2028, 0x2029, 0x202F, 0x205F, 0x3000]

/-- What holds of the characters of the blank code points holds of all blanks. -/
theorem forall_isBlank {P : Char → Prop} (h : ∀ n ∈ blankCodes, P (Char.ofNat n)) {c : Char}
    (hc : isBlank c = true) : P c := by
  have hmem : c.toNat ∈ blankCodes := by
    simp [isBlank] at hc
    simp [blankCodes]
    omega
  have := h c.toNat hmem
  rwa [Char.ofNat_toNat] at this

theorem ne_of_isBlank {c d : Char} (hc : isBlank c = true) (hd : isBlank d = false) : d ≠ c := by
  rintro rfl
  rw [hc] at hd
  cases hd

/-- Blanks that may stand at the end of a line. -/
def IsTail (w : List Char) : Prop := ∀ c ∈ w, isBlank c = true ∧ c ≠ '\n'

/-- Characters that can be a line of a text. -/
def IsLine (x : List Char) : Prop := '\n' ∉ x

instance (x : List Char) : Decidable (IsLine x) := inferInstanceAs (Decidable ('\n' ∉ x))

variable {x w : List Char}

theorem IsTail.all (hw : IsTail w) : w.all isBlank = true :=
  List.all_eq_true.mpr fun c hc => (hw c hc).1

theorem IsTail.ne (hw : IsTail w) {c d : Char} (hc : c ∈ w) (hd : isBlank d = false) : d ≠ c :=
  ne_of_isBlank (hw c hc).1 hd

theorem IsTail.suffix {v : List Char} (hw : IsTail w) (h : v <:+ w) : IsTail v :=
  fun c hc => hw c (h.subset hc)

theorem IsLine.suffix {y : List Char} (hx : IsLine x) (h : y <:+ x) : IsLine y :=
  fun hc => hx (h.subset hc)

theorem IsLine.append (hx : IsLine x) (hw : IsTail w) : IsLine (x ++ w) := by
  intro hmem
  rcases List.mem_append.mp hmem with h | h
  · exact hx h
  · exact (hw _ h).2 rfl

theorem isTail_nil : IsTail [] := fun _ hc => nomatch hc

theorem isTail_twoBlanks : IsTail "  ".toList := by
  simp [IsTail, isBlank]

/-! ### Trimming and marks -/

theorem trimLeft_eq_nil_iff : trimLeft x = [] ↔ x.all isBlank = true := by
  simp [trimLeft, List.dropWhile_eq_nil_iff]

theorem dropWhile_append_of_ne_nil {p : Char → Bool} (h : x.dropWhile p ≠ []) (w : List Char) :
    (x ++ w).dropWhile p = x.dropWhile p ++ w ∧ (x ++ w).takeWhile p = x.takeWhile p := by
  induction x with
  | nil => exact absurd rfl h
  | cons c rest ih =>
    cases hc : p c with
    | true =>
      rw [List.dropWhile_cons_of_pos hc] at h
      simp [hc, ih h]
    | false => simp [hc]

theorem dropWhile_append_of_eq_nil {p : Char → Bool} (h : x.dropWhile p = []) (w : List Char) :
    (x ++ w).dropWhile p = w.dropWhile p ∧ (x ++ w).takeWhile p = x ++ w.takeWhile p := by
  have hall := List.dropWhile_eq_nil_iff.mp h
  exact ⟨List.dropWhile_append_of_pos hall, List.takeWhile_append_of_pos hall⟩

theorem trimLeft_append_of_ne_nil (h : trimLeft x ≠ []) (w : List Char) :
    trimLeft (x ++ w) = trimLeft x ++ w :=
  (dropWhile_append_of_ne_nil h w).1

theorem trimLeft_append_of_eq_nil (h : trimLeft x = []) (hw : IsTail w) :
    trimLeft (x ++ w) = [] := by
  rw [trimLeft_eq_nil_iff] at h ⊢
  rw [List.all_append, h, hw.all, Bool.and_self]

/-- Trimming takes the blanks at the end away. -/
theorem trim_append_of_all (x : List Char) (hw : w.all isBlank = true) :
    trim (x ++ w) = trim x := by
  by_cases h : trimLeft x = []
  · have hall : trimLeft (x ++ w) = [] := by
      rw [trimLeft_eq_nil_iff] at h ⊢
      rw [List.all_append, h, hw, Bool.and_self]
    rw [trim, trim, hall, h]
  · have hblank : ∀ c ∈ w.reverse, isBlank c = true := fun c hc =>
      List.all_eq_true.mp hw c (List.mem_reverse.mp hc)
    rw [trim, trim, trimLeft_append_of_ne_nil h, trimRight, trimRight, dropWhileRight,
      dropWhileRight, List.reverse_append, List.dropWhile_append_of_pos hblank]

theorem trim_append (x : List Char) (hw : IsTail w) : trim (x ++ w) = trim x :=
  trim_append_of_all x hw.all

theorem trimmed_append (x : List Char) (hw : IsTail w) : trimmed (x ++ w) = trimmed x :=
  congrArg String.ofList (trim_append x hw)

theorem after?_eq_some_iff {mark rest : List Char} :
    after? mark x = some rest ↔ x = mark ++ rest := by
  unfold after?
  constructor
  · intro h
    split_ifs at h with hmark
    obtain ⟨more, rfl⟩ := List.isPrefixOf_iff_prefix.mp hmark
    rw [List.drop_left] at h
    rw [Option.some.inj h]
  · rintro rfl
    simp

/-- A mark without blanks is found in front of a line or not, whatever blanks follow. -/
theorem after?_append {mark : List Char} (hmark : mark.any isBlank = false)
    (x : List Char) (hw : IsTail w) : after? mark (x ++ w) = (after? mark x).map (· ++ w) := by
  cases h : after? mark x with
  | some rest =>
    rw [after?_eq_some_iff] at h
    rw [Option.map_some, after?_eq_some_iff, h, List.append_assoc]
  | none =>
    cases h' : after? mark (x ++ w) with
    | none => rfl
    | some rest =>
      exfalso
      rw [after?_eq_some_iff] at h'
      rcases List.append_eq_append_iff.mp h' with ⟨more, hmore, hrest⟩ | ⟨more, hmore, -⟩
      · cases more with
        | nil =>
          rw [List.append_nil] at hmore
          have : after? mark x = some [] := after?_eq_some_iff.mpr (by simp [hmore])
          rw [h] at this
          cases this
        | cons c more =>
          have hc : c ∈ mark := by simp [hmore]
          have hblank : isBlank c = false := by
            rw [List.any_eq_false] at hmark
            exact eq_false_of_ne_true (hmark c hc)
          exact hw.ne (c := c) (by simp [hrest]) hblank rfl
      · rw [after?_eq_some_iff.mpr hmore] at h
        cases h

theorem after?_isTail {c : Char} {mark : List Char} (hc : isBlank c = false) (hw : IsTail w) :
    after? (c :: mark) w = none := by
  cases w with
  | nil => rfl
  | cons d rest => simp [after?, hw.ne List.mem_cons_self hc]

/-! ### Recognisers that ignore blanks at the end -/

section Recognisers

variable {β γ : Type} {f : List Char → Option β}

/-- What follows a mark takes the blanks at the end of the line along. -/
theorem bind_after?_append {mark : List Char} (hmark : mark.any isBlank = false) (hw : IsTail w)
    (h : ∀ rest, after? mark x = some rest → f (rest ++ w) = f rest) :
    (after? mark (x ++ w)).bind f = (after? mark x).bind f := by
  rw [after?_append hmark x hw]
  cases hrest : after? mark x with
  | none => rfl
  | some rest => exact h rest hrest

theorem trimLeft_congr (hw : IsTail w)
    (h : trimLeft x ≠ [] → f (trimLeft x ++ w) = f (trimLeft x)) :
    f (trimLeft (x ++ w)) = f (trimLeft x) := by
  by_cases hnil : trimLeft x = []
  · rw [trimLeft_append_of_eq_nil hnil hw, hnil]
  · rw [trimLeft_append_of_ne_nil hnil, h hnil]

/-- So does what follows a run of characters, if blanks alone are not recognised there. -/
theorem span_congr {p : Char → Bool} {f : List Char → List Char → Option β} (hw : IsTail w)
    (hblank : ∀ run v, IsTail v → f run v = none)
    (h : x.dropWhile p ≠ [] →
      f (x.takeWhile p) (x.dropWhile p ++ w) = f (x.takeWhile p) (x.dropWhile p)) :
    f ((x ++ w).takeWhile p) ((x ++ w).dropWhile p) = f (x.takeWhile p) (x.dropWhile p) := by
  by_cases hrest : x.dropWhile p = []
  · obtain ⟨hdrop, -⟩ := dropWhile_append_of_eq_nil hrest w
    rw [hdrop, hrest, hblank _ _ (hw.suffix (List.dropWhile_suffix p)), hblank _ [] isTail_nil]
  · obtain ⟨hdrop, htake⟩ := dropWhile_append_of_ne_nil hrest w
    rw [hdrop, htake, h hrest]

theorem suffix_of_after? {mark rest : List Char} (h : after? mark x = some rest) : rest <:+ x :=
  ⟨mark, (after?_eq_some_iff.mp h).symm⟩

/-- A recogniser that blanks at the end of a line do not change. -/
def Ignores (f : List Char → Option β) : Prop :=
  ∀ x w, IsLine x → IsTail w → f (x ++ w) = f x

theorem Ignores.eq_none (h : Ignores f) (hnil : f [] = none) (hw : IsTail w) : f w = none :=
  (h [] w List.not_mem_nil hw).trans hnil

theorem Ignores.mark (h : Ignores f) (mark : List Char) (hmark : mark.any isBlank = false) :
    Ignores fun x => (after? mark x).bind f :=
  fun _ w hx hw => bind_after?_append hmark hw fun rest hrest =>
    h rest w (hx.suffix (suffix_of_after? hrest)) hw

theorem Ignores.trimLeft (h : Ignores f) : Ignores fun x => f (trimLeft x) :=
  fun _ w hx hw => trimLeft_congr hw fun _ => h _ w (hx.suffix (List.dropWhile_suffix _)) hw

theorem ignores_allBlank (a : β) : Ignores fun x => if x.all isBlank then some a else none := by
  intro x w _ hw
  simp only [List.all_append, hw.all, Bool.and_true]

theorem Ignores.span {p : Char → Bool} {f : List Char → List Char → Option β}
    (h : ∀ run, Ignores (f run)) (hnil : ∀ run, f run [] = none) :
    Ignores fun x => f (x.takeWhile p) (x.dropWhile p) :=
  fun _ w hx hw => span_congr hw (fun run _ hv => (h run).eq_none (hnil run) hv) fun _ =>
    h _ _ w (hx.suffix (List.dropWhile_suffix p)) hw

theorem Ignores.run {p : Char → Bool} {f : List Char → List Char → Option β}
    (h : ∀ run, Ignores (f run)) (hnil : ∀ run, f run [] = none) :
    Ignores fun x => (run? p x).bind fun r => f r.1 r.2 := by
  have hspan : (fun x => (run? p x).bind fun r => f r.1 r.2) =
      fun x => if (x.takeWhile p).isEmpty then none else f (x.takeWhile p) (x.dropWhile p) := by
    funext x
    rw [run?]
    split_ifs <;> rfl
  rw [hspan]
  refine Ignores.span (f := fun run rest => if run.isEmpty then none else f run rest) ?_ ?_
  · intro run x w hx hw
    beta_reduce
    rw [h run x w hx hw]
  · intro run
    rw [hnil, ite_self]

/-- A shortest run, if blanks alone are not recognised after it. -/
theorem Ignores.shortest (h : Ignores f) (hnil : f [] = none) (p : Char → Bool) :
    Ignores (shortestBefore? p f) := by
  intro x w hx hw
  induction x with
  | nil =>
    have hnone : ∀ {w}, IsTail w → shortestBefore? p f w = none := by
      intro w
      induction w with
      | nil => simp [shortestBefore?, hnil]
      | cons c rest ih =>
        intro hw
        have hrest := ih (hw.suffix (List.suffix_cons c rest))
        simp [shortestBefore?, h.eq_none hnil hw, hrest]
    rw [List.nil_append, hnone hw, hnone isTail_nil]
  | cons c rest ih =>
    have hread := h (c :: rest) w hx hw
    rw [List.cons_append] at hread ⊢
    rw [shortestBefore?, shortestBefore?, hread, ih (hx.suffix (List.suffix_cons c rest))]

theorem Ignores.someBefore (h : Ignores f) (hnil : f [] = none) (p : Char → Bool) :
    Ignores (someBefore? p f) := by
  intro x w hx hw
  cases x with
  | nil =>
    cases w with
    | nil => rfl
    | cons c rest =>
      have hrest := (h.shortest hnil p).eq_none (by simp [shortestBefore?, hnil])
        (hw.suffix (List.suffix_cons c rest))
      simp [someBefore?, hrest]
  | cons c rest =>
    rw [List.cons_append, someBefore?, someBefore?,
      h.shortest hnil p rest w (hx.suffix (List.suffix_cons c rest)) hw]

theorem restsAfter_cons (p : Char → Bool) (c : Char) (rest : List Char) :
    restsAfter p (c :: rest) = (if p c then restsAfter p rest else []) ++ [c :: rest] := by
  rw [restsAfter, restsFrom, List.reverse_cons]
  split_ifs <;> rfl

/-- The longest run after which a line is recognised, if blanks alone are not. -/
theorem Ignores.longest (h : Ignores f) (hnil : f [] = none) (p : Char → Bool) :
    Ignores fun x => (restsAfter p x).findSome? f := by
  intro x w hx hw
  beta_reduce
  induction x with
  | nil =>
    have hnone : ∀ {w}, IsTail w → (restsAfter p w).findSome? f = none := by
      intro w
      induction w with
      | nil => simp [restsAfter, restsFrom, hnil]
      | cons c rest ih =>
        intro hw
        have hrest := ih (hw.suffix (List.suffix_cons c rest))
        rw [restsAfter_cons, List.findSome?_append]
        split_ifs <;> simp [hrest, h.eq_none hnil hw]
    rw [List.nil_append, hnone hw, hnone isTail_nil]
  | cons c rest ih =>
    have hread := h (c :: rest) w hx hw
    rw [List.cons_append] at hread ⊢
    rw [restsAfter_cons, restsAfter_cons, List.findSome?_append, List.findSome?_append]
    simp only [List.findSome?_singleton, hread]
    split_ifs
    · rw [ih (hx.suffix (List.suffix_cons c rest))]
    · rfl

theorem Ignores.longestSome (h : Ignores f) (hnil : f [] = none) (p : Char → Bool) :
    Ignores fun x => (restsAfterSome p x).findSome? f := by
  intro x w hx hw
  cases x with
  | nil =>
    cases w with
    | nil => rfl
    | cons c rest =>
      have hrest := (h.longest hnil p).eq_none (by simp [restsAfter, restsFrom, hnil])
        (hw.suffix (List.suffix_cons c rest))
      simp only [List.nil_append, restsAfterSome]
      split_ifs
      · exact hrest
      · rfl
  | cons c rest =>
    simp only [List.cons_append, restsAfterSome]
    split_ifs
    · exact h.longest hnil p rest w (hx.suffix (List.suffix_cons c rest)) hw
    · rfl

/-! ### Recognisers that ask for a character -/

/-- Blanks `v` tell what blanks `w` do at the end of a line: they are the same, or at least two.
One blank may stand in front of a character, two are as good as any number. -/
structure Tells (v w : List Char) : Prop where
  tail : IsTail v
  tail' : IsTail w
  enough : v = w ∨ 2 ≤ v.length

theorem tells_twoBlanks (hw : IsTail w) : Tells "  ".toList w :=
  ⟨isTail_twoBlanks, hw, .inr le_rfl⟩

theorem IsTail.tells (hw : IsTail w) : Tells w w := ⟨hw, hw, .inl rfl⟩

/-- A recogniser that blanks at the end of a line do not change, unless blanks that tell what
they do make it recognise a line or make it fail to. -/
def Settles (f : List Char → Option β) : Prop :=
  ∀ x v w, IsLine x → Tells v w → (f (x ++ v)).isSome = (f x).isSome → f (x ++ w) = f x

theorem Settles.map (h : Settles f) (g : β → γ) : Settles fun x => (f x).map g := by
  intro x v w hx hw hsome
  rw [Option.isSome_map, Option.isSome_map] at hsome
  exact congrArg (Option.map g) (h x v w hx hw hsome)

theorem Settles.mark (h : Settles f) (mark : List Char) (hmark : mark.any isBlank = false) :
    Settles fun x => (after? mark x).bind f := by
  intro x v w hx hw hsome
  refine bind_after?_append hmark hw.tail' fun rest hrest => ?_
  beta_reduce at hsome
  rw [after?_append hmark x hw.tail, hrest] at hsome
  exact h rest v w (hx.suffix (suffix_of_after? hrest)) hw hsome

theorem Settles.trimLeft (h : Settles f) : Settles fun x => f (trimLeft x) := by
  intro x v w hx hw hsome
  refine trimLeft_congr hw.tail' fun hne => ?_
  beta_reduce at hsome
  rw [trimLeft_append_of_ne_nil hne] at hsome
  exact h _ v w (hx.suffix (List.dropWhile_suffix _)) hw hsome

theorem Settles.span {p : Char → Bool} {f : List Char → List Char → Option β}
    (h : ∀ run, Settles (f run)) (hblank : ∀ run v, IsTail v → f run v = none) :
    Settles fun x => f (x.takeWhile p) (x.dropWhile p) := by
  intro x v w hx hw hsome
  refine span_congr hw.tail' hblank fun hne => ?_
  obtain ⟨hdrop, htake⟩ := dropWhile_append_of_ne_nil hne v
  beta_reduce at hsome
  rw [hdrop, htake] at hsome
  exact h _ _ v w (hx.suffix (List.dropWhile_suffix p)) hw hsome

/-- A text that ends in a mark, but for blanks. -/
def EndsIn (mark x : List Char) : Prop :=
  ∃ front rest, x = front ++ (mark ++ rest) ∧ rest.all isBlank = true

theorem EndsIn.of_suffix {mark y : List Char} (h : EndsIn mark y) (hsuffix : y <:+ x) :
    EndsIn mark x := by
  obtain ⟨front, rest, rfl, hrest⟩ := h
  obtain ⟨more, rfl⟩ := hsuffix
  exact ⟨more ++ front, rest, by simp, hrest⟩

/-- A recogniser that blanks at the end of a line change only where they follow a mark. -/
def ChangesAfter (mark : List Char) (f : List Char → Option β) : Prop :=
  ∀ x w, IsLine x → IsTail w → ¬EndsIn mark x → f (x ++ w) = f x

theorem changesAfter_mark (mark : List Char)
    (h : ∀ x w, IsLine x → IsTail w → x.all isBlank ≠ true → f (x ++ w) = f x)
    (hmark : mark.any isBlank = false) : ChangesAfter mark fun x => (after? mark x).bind f := by
  intro x w hx hw hends
  refine bind_after?_append hmark hw fun rest hrest => ?_
  have heq := after?_eq_some_iff.mp hrest
  exact h rest w (hx.suffix (suffix_of_after? hrest)) hw fun hblank =>
    hends ⟨[], rest, heq, hblank⟩

variable {mark : List Char}

theorem ChangesAfter.trimLeft (h : ChangesAfter mark f) :
    ChangesAfter mark fun x => f (trimLeft x) := by
  intro x w hx hw hends
  have hsuffix : Text.trimLeft x <:+ x := List.dropWhile_suffix _
  exact trimLeft_congr hw fun _ =>
    h _ w (hx.suffix hsuffix) hw fun hrest => hends (hrest.of_suffix hsuffix)

theorem ChangesAfter.span {p : Char → Bool} {f : List Char → List Char → Option β}
    (h : ∀ run, ChangesAfter mark (f run)) (hblank : ∀ run v, IsTail v → f run v = none) :
    ChangesAfter mark fun x => f (x.takeWhile p) (x.dropWhile p) := by
  intro x w hx hw hends
  have hsuffix : x.dropWhile p <:+ x := List.dropWhile_suffix p
  exact span_congr hw hblank fun _ =>
    h _ _ w (hx.suffix hsuffix) hw fun hrest => hends (hrest.of_suffix hsuffix)

end Recognisers

/-! ### Names and values -/

theorem oneLine?_eq (hx : IsLine x) : oneLine? x = some x := by
  have hall : ∀ c ∈ x, inLine c = true := fun c hc => by
    simpa [inLine] using fun heq : c = '\n' => hx (heq ▸ hc)
  simp [oneLine?, List.dropWhile_eq_nil_iff.mpr hall, List.takeWhile_eq_self_iff.mpr hall, atEnd]

theorem someLine?_eq (hx : IsLine x) : someLine? x = if x.isEmpty then none else some x := by
  rw [someLine?, oneLine?_eq hx]
  cases x <;> rfl

/-- The longest run of blanks leaves a line that is trimmed like the whole. -/
theorem exists_findSome?_someLine? (hx : IsLine x) (hne : x ≠ []) :
    ∃ name, (restsAfter isBlank x).findSome? someLine? = some name ∧ trim name = trim x := by
  induction x with
  | nil => exact absurd rfl hne
  | cons c rest ih =>
    have hlast : someLine? (c :: rest) = some (c :: rest) := by
      rw [someLine?_eq hx]
      rfl
    rw [restsAfter_cons, List.findSome?_append, List.findSome?_singleton, hlast]
    cases hc : isBlank c with
    | false => exact ⟨c :: rest, rfl, rfl⟩
    | true =>
      have htrim : trim (c :: rest) = trim rest := by
        rw [trim, trim, trimLeft, List.dropWhile_cons_of_pos hc, ← trimLeft]
      rw [if_pos rfl, htrim]
      by_cases hrest : rest = []
      · subst hrest
        exact ⟨[c], rfl, htrim⟩
      · obtain ⟨name, hname, heq⟩ := ih (hx.suffix (List.suffix_cons c rest)) hrest
        exact ⟨name, by rw [hname]; rfl, heq⟩

theorem lineAfterBlanks?_cons {c : Char} {rest : List Char} (hx : IsLine (c :: rest)) :
    (lineAfterBlanks? (c :: rest)).map trimmed =
      if isBlank c = true ∧ rest ≠ [] then some (trimmed rest) else none := by
  rw [lineAfterBlanks?, restsAfterSome]
  by_cases hc : isBlank c = true
  · by_cases hrest : rest = []
    · subst hrest
      simp [restsAfter, restsFrom, someLine?, oneLine?, atEnd]
    · obtain ⟨name, hname, heq⟩ :=
        exists_findSome?_someLine? (hx.suffix (List.suffix_cons c rest)) hrest
      rw [if_pos hc, if_pos ⟨hc, hrest⟩, hname, Option.map_some, trimmed, trimmed, heq]
  · rw [if_neg hc, if_neg fun h => hc h.1]
    rfl

theorem name_append {c : Char} {rest : List Char} (hx : IsLine (c :: rest)) (hw : IsTail w)
    (hrest : isBlank c = true → rest ≠ []) :
    (lineAfterBlanks? (c :: rest ++ w)).map trimmed =
      (lineAfterBlanks? (c :: rest)).map trimmed := by
  have hline : IsLine (c :: (rest ++ w)) := hx.append hw
  rw [List.cons_append, lineAfterBlanks?_cons hline, lineAfterBlanks?_cons hx,
    trimmed_append rest hw]
  refine if_congr (and_congr_right fun hc => ?_) rfl rfl
  simp [hrest hc]

theorem lineAfterBlanks?_isTail (hw : IsTail w) :
    ((lineAfterBlanks? w).map trimmed).isSome = decide (2 ≤ w.length) := by
  cases w with
  | nil => rfl
  | cons c rest =>
    have hline : IsLine (c :: rest) := fun hmem => (hw _ hmem).2 rfl
    have hc : isBlank c = true := (hw c List.mem_cons_self).1
    rw [lineAfterBlanks?_cons hline]
    cases rest <;> simp [hc]

/-- A name after blanks: two blanks alone make an empty name. -/
theorem settles_name : Settles fun x => (lineAfterBlanks? x).map trimmed := by
  intro x v w hx hw hsome
  beta_reduce at hsome ⊢
  cases x with
  | nil =>
    have hshort : ¬2 ≤ v.length := by
      rw [List.nil_append, lineAfterBlanks?_isTail hw.tail] at hsome
      exact of_decide_eq_false hsome
    obtain rfl := hw.enough.resolve_right hshort
    have hnone := lineAfterBlanks?_isTail hw.tail
    rw [decide_eq_false hshort, Option.isSome_eq_false_iff, Option.isNone_iff_eq_none] at hnone
    exact hnone
  | cons c rest =>
    by_cases hone : isBlank c = true ∧ rest = []
    · obtain ⟨hc, rfl⟩ := hone
      have hline : IsLine (c :: ([] ++ v)) := hx.append hw.tail
      rw [List.cons_append, lineAfterBlanks?_cons hline, lineAfterBlanks?_cons hx] at hsome
      have hnil : v = [] := by simpa [hc, Option.isSome_iff_ne_none] using hsome
      subst hnil
      obtain rfl := hw.enough.resolve_right (by simp)
      rw [List.append_nil]
    · exact name_append hx hw.tail' fun hc hrest => hone ⟨hc, hrest⟩

theorem name_append_of_not_blank (hx : IsLine x) (hw : IsTail w) (hblank : x.all isBlank ≠ true) :
    (lineAfterBlanks? (x ++ w)).map trimmed = (lineAfterBlanks? x).map trimmed := by
  cases x with
  | nil => exact absurd rfl hblank
  | cons c rest =>
    refine name_append hx hw fun hc hrest => hblank ?_
    simp [hc, hrest]

/-- A value up to a semicolon, with blanks alone or anything after it. -/
def value? {β : Type} (g : List Char → β) (onlyBlanks : Bool) (x : List Char) : Option β :=
  if (x.takeWhile (· != ';')).isEmpty ||
      onlyBlanks && !((x.dropWhile (· != ';')).drop 1).all isBlank then none
  else some (g (trim (x.takeWhile (· != ';'))))

theorem IsTail.noSemicolon (hw : IsTail w) :
    w.takeWhile (· != ';') = w ∧ w.dropWhile (· != ';') = [] := by
  have hall : ∀ c ∈ w, (c != ';') = true := fun c hc => by
    simpa using (hw.ne hc (d := ';') (by decide)).symm
  exact ⟨List.takeWhile_eq_self_iff.mpr hall, List.dropWhile_eq_nil_iff.mpr hall⟩

theorem value?_append {β : Type} (g : List Char → β) (onlyBlanks : Bool) (hne : x ≠ [])
    (hw : IsTail w) : value? g onlyBlanks (x ++ w) = value? g onlyBlanks x := by
  unfold value?
  by_cases hrest : x.dropWhile (· != ';') = []
  · obtain ⟨hvalue, hmark⟩ := hw.noSemicolon
    obtain ⟨hdrop, htake⟩ := dropWhile_append_of_eq_nil hrest w
    have hall : x.takeWhile (· != ';') = x :=
      List.takeWhile_eq_self_iff.mpr (List.dropWhile_eq_nil_iff.mp hrest)
    rw [hdrop, htake, hvalue, hmark, hrest, hall, trim_append x hw]
    simp [hne]
  · obtain ⟨hdrop, htake⟩ := dropWhile_append_of_ne_nil hrest w
    have hlength : 1 ≤ (x.dropWhile (· != ';')).length := List.length_pos_iff.mpr hrest
    rw [hdrop, htake, List.drop_append_of_le_length hlength, List.all_append, hw.all,
      Bool.and_true]

/-- A blank alone makes an empty value. -/
theorem settles_value {β : Type} (g : List Char → β) (onlyBlanks : Bool) :
    Settles (value? g onlyBlanks) := by
  intro x v w _ hw hsome
  by_cases hx : x = []
  · subst hx
    obtain ⟨hvalue, hmark⟩ := hw.tail.noSemicolon
    have hnil : v = [] := by simpa [value?, hvalue, hmark] using hsome
    subst hnil
    obtain rfl := hw.enough.resolve_right (by simp)
    rfl
  · exact value?_append g onlyBlanks hx hw.tail'

end NoteGraph.Text
