import Mathlib.Data.List.Basic
import NoteGraph.Proofs.Text.Trailing

/-!
# Reading what is written

What is put together from pieces comes apart into these pieces again where they end: a run of
characters before the first other one, words between blanks, and a text before the first place
from which on the rest can be read.
-/

namespace NoteGraph.Text

variable {p : Char → Bool} {cs run rest : List Char}

/-! ### Runs of characters -/

/-- A run of `p`-characters ends where the first other character is. -/
theorem takeWhile_append_stop (hrun : run.all p = true) (hrest : ∀ c ∈ rest.head?, p c = false) :
    (run ++ rest).takeWhile p = run ∧ (run ++ rest).dropWhile p = rest := by
  have hall := List.all_eq_true.mp hrun
  rw [List.takeWhile_append_of_pos hall, List.dropWhile_append_of_pos hall]
  cases rest with
  | nil => exact ⟨List.append_nil run, rfl⟩
  | cons c more => simp [hrest c rfl]

theorem run?_append (hne : run ≠ []) (hrun : run.all p = true)
    (hrest : ∀ c ∈ rest.head?, p c = false) : run? p (run ++ rest) = some (run, rest) := by
  obtain ⟨htake, hdrop⟩ := takeWhile_append_stop hrun hrest
  simp [run?, htake, hdrop, hne]

theorem head?_dropWhile (p : Char → Bool) (cs : List Char) :
    ∀ c ∈ (cs.dropWhile p).head?, p c = false := by
  intro c hc
  have hnot := List.head?_dropWhile_not p cs
  rw [Option.mem_def.mp hc] at hnot
  exact hnot

theorem run?_eq_some_iff : run? p cs = some (run, rest) ↔
    cs = run ++ rest ∧ run.all p = true ∧ run ≠ [] ∧ ∀ c ∈ rest.head?, p c = false := by
  constructor
  · intro h
    simp only [run?] at h
    split_ifs at h with hempty
    obtain ⟨rfl, rfl⟩ := Prod.mk.inj (Option.some.inj h)
    exact ⟨List.takeWhile_append_dropWhile.symm, List.all_takeWhile,
      mt List.isEmpty_iff.mpr hempty, head?_dropWhile p cs⟩
  · rintro ⟨rfl, hrun, hne, hrest⟩
    exact run?_append hne hrun hrest

theorem takeWhile_of_head? (h : ∀ c ∈ cs.head?, p c = false) : cs.takeWhile p = [] :=
  (@takeWhile_append_stop p [] cs rfl h).1

theorem dropWhile_of_head? (h : ∀ c ∈ cs.head?, p c = false) : cs.dropWhile p = cs :=
  (@takeWhile_append_stop p [] cs rfl h).2

theorem dropWhileRight_of_getLast? (h : ∀ c ∈ cs.getLast?, p c = false) :
    dropWhileRight p cs = cs := by
  have hreverse : cs.reverse.dropWhile p = cs.reverse :=
    dropWhile_of_head? fun c hc => h c (by rwa [List.head?_reverse] at hc)
  rw [dropWhileRight, hreverse, List.reverse_reverse]

theorem getLast?_dropWhileRight : ∀ c ∈ (dropWhileRight p cs).getLast?, p c = false := by
  intro c hc
  rw [dropWhileRight, List.getLast?_reverse] at hc
  exact head?_dropWhile p cs.reverse c hc

theorem dropWhileRight_append {x y : List Char} (h : dropWhileRight p y ≠ []) :
    dropWhileRight p (x ++ y) = x ++ dropWhileRight p y := by
  have hdrop : y.reverse.dropWhile p ≠ [] := by simpa [dropWhileRight] using h
  rw [dropWhileRight, List.reverse_append, (dropWhile_append_of_ne_nil hdrop _).1,
    List.reverse_append, List.reverse_reverse, dropWhileRight]

theorem dropWhileRight_append_of_getLast? {p : Char → Bool} {x : List Char}
    (hx : ∀ c ∈ x.getLast?, p c = false) (y : List Char) :
    dropWhileRight p (x ++ y) = x ++ dropWhileRight p y := by
  by_cases h : dropWhileRight p y = []
  · have hy : y.reverse.dropWhile p = [] := by simpa [dropWhileRight] using h
    have hdrop := dropWhileRight_of_getLast? hx
    rw [h, List.append_nil, dropWhileRight, List.reverse_append,
      (dropWhile_append_of_eq_nil hy _).1]
    exact hdrop
  · exact dropWhileRight_append h

theorem dropWhileRight_isPrefix (p : Char → Bool) (cs : List Char) :
    dropWhileRight p cs <+: cs := by
  have hsuffix := @List.dropWhile_suffix _ cs.reverse p
  rw [← List.reverse_reverse cs, dropWhileRight, List.reverse_reverse]
  exact List.reverse_prefix.mpr hsuffix

/-! ### Marks and what is skipped -/

theorem forall_mem_head?_cons {α : Type} {P : α → Prop} {a : α} {as : List α} :
    (∀ b ∈ (a :: as).head?, P b) ↔ P a := by
  simp

theorem after?_eq_none {m : Char} (h : ∀ c ∈ cs.head?, c ≠ m) (mark : List Char) :
    after? (m :: mark) cs = none := by
  cases cs with
  | nil => rfl
  | cons c rest => simp [after?, Ne.symm (h c rfl)]

theorem after?_of_head? {m c : Char} {mark : List Char} (h : cs.head? = some c) (hne : m ≠ c) :
    after? (m :: mark) cs = none := by
  obtain ⟨rest, rfl⟩ := List.head?_eq_some_iff.mp h
  exact after?_eq_none (forall_mem_head?_cons.mpr hne.symm) mark

/-- Nothing is skipped of a text that does not start with a character to skip. -/
theorem restsAfter_of_head? (h : ∀ c ∈ cs.head?, p c = false) : restsAfter p cs = [cs] := by
  cases cs with
  | nil => rfl
  | cons c rest =>
    rw [restsAfter_cons, h c rfl]
    rfl

theorem restsAfterSome_cons {c : Char} (hc : p c = true) (h : ∀ d ∈ cs.head?, p d = false) :
    restsAfterSome p (c :: cs) = [cs] := by
  rw [restsAfterSome, if_pos hc, restsAfter_of_head? h]

/-- The shortest run that a mark ends is that before the first place of the mark. -/
theorem runsBefore_append {m : Char} (hne : run ≠ []) (hrun : run.all p = true) (hm : m ∉ run)
    (mark rest : List Char) :
    ∃ more, runsBefore p (m :: mark) (run ++ (m :: mark ++ rest)) = (run, rest) :: more := by
  induction run with
  | nil => exact absurd rfl hne
  | cons c run ih =>
    obtain ⟨hc, hrun⟩ := by simpa only [List.all_cons, Bool.and_eq_true] using hrun
    obtain ⟨-, hm⟩ := not_or.mp (List.mem_cons.not.mp hm)
    rw [List.cons_append, runsBefore, if_pos hc]
    cases run with
    | nil =>
      rw [List.nil_append, after?_eq_some_iff.mpr rfl]
      exact ⟨_, rfl⟩
    | cons d run =>
      obtain ⟨more, hmore⟩ := ih (List.cons_ne_nil _ _) hrun hm
      have hd : d ≠ m := fun heq => hm (heq ▸ List.mem_cons_self)
      have hnone : after? (m :: mark) (d :: run ++ (m :: mark ++ rest)) = none := by
        exact after?_eq_none (forall_mem_head?_cons.mpr hd) mark
      rw [hnone, hmore]
      exact ⟨_, rfl⟩

/-! ### Trimmed texts -/

/-- A text is trimmed if no blank is at its ends. -/
theorem trim_eq_self_iff :
    trim cs = cs ↔ (∀ c ∈ cs.head?, isBlank c = false) ∧ ∀ c ∈ cs.getLast?, isBlank c = false := by
  constructor
  · intro h
    refine ⟨fun c hc => ?_, fun c hc => ?_⟩
    · by_contra hblank
      obtain ⟨more, rfl⟩ := List.head?_eq_some_iff.mp hc
      have hlength : (trim (c :: more)).length ≤ more.length := by
        rw [trim, trimLeft, List.dropWhile_cons_of_pos (eq_true_of_ne_false hblank), trimRight,
          dropWhileRight, List.length_reverse]
        refine (List.length_dropWhile_le ..).trans ?_
        rw [List.length_reverse]
        exact List.length_dropWhile_le ..
      rw [h, List.length_cons] at hlength
      omega
    · rw [← h] at hc
      exact getLast?_dropWhileRight c hc
  · rintro ⟨hhead, hlast⟩
    rw [trim, trimLeft, dropWhile_of_head? hhead, trimRight, dropWhileRight_of_getLast? hlast]

theorem trim_of_forall (h : ∀ c ∈ cs, isBlank c = false) : trim cs = cs :=
  trim_eq_self_iff.mpr ⟨fun c hc => h c (List.mem_of_mem_head? hc),
    fun c hc => h c (List.mem_of_mem_getLast? hc)⟩

theorem isTail_space : IsTail [' '] := by
  simp [IsTail, isBlank]

theorem trim_space_cons (cs : List Char) : trim (' ' :: cs) = trim cs := rfl

theorem trim_all_append {w : List Char} (hw : w.all isBlank = true) (cs : List Char) :
    trim (w ++ cs) = trim cs := by
  rw [trim, trim, trimLeft, List.dropWhile_append_of_pos (List.all_eq_true.mp hw), trimLeft]

/-- What is trimmed off at the end is blank. -/
theorem exists_trimRight_append (cs : List Char) :
    ∃ w, w.all isBlank = true ∧ cs = trimRight cs ++ w := by
  refine ⟨(cs.reverse.takeWhile isBlank).reverse, ?_, ?_⟩
  · rw [List.all_reverse]
    exact List.all_takeWhile
  · rw [trimRight, dropWhileRight, ← List.reverse_append, List.takeWhile_append_dropWhile,
      List.reverse_reverse]

theorem exists_append_trim_append (cs : List Char) :
    ∃ v w, v.all isBlank = true ∧ w.all isBlank = true ∧ cs = v ++ (trim cs ++ w) := by
  obtain ⟨w, hw, heq⟩ := exists_trimRight_append (trimLeft cs)
  refine ⟨cs.takeWhile isBlank, w, List.all_takeWhile, hw, ?_⟩
  rw [trim, ← heq, trimLeft, List.takeWhile_append_dropWhile]

theorem trim_trim (cs : List Char) : trim (trim cs) = trim cs := by
  obtain ⟨v, w, hv, hw, heq⟩ := exists_append_trim_append cs
  conv_rhs => rw [heq, trim_all_append hv, trim_append_of_all _ hw]

theorem trim_trimRight (cs : List Char) : trim (trimRight cs) = trim cs := by
  obtain ⟨w, hw, heq⟩ := exists_trimRight_append cs
  conv_rhs => rw [heq, trim_append_of_all _ hw]

theorem trimRight_append_cons {c : Char} (hc : isBlank c = false) (x cs : List Char) :
    trimRight (x ++ c :: cs) = x ++ c :: trimRight cs := by
  rw [trimRight, trimRight, dropWhileRight, dropWhileRight, List.reverse_append, List.reverse_cons,
    List.append_assoc]
  by_cases h : cs.reverse.dropWhile isBlank = []
  · rw [(dropWhile_append_of_eq_nil h _).1, h]
    simp [hc]
  · rw [(dropWhile_append_of_ne_nil h _).1]
    simp

/-! ### Words -/

/-- A run of at least one character, none of them blank. -/
def IsWord (cs : List Char) : Prop := cs ≠ [] ∧ ∀ c ∈ cs, isBlank c = false

instance (cs : List Char) : Decidable (IsWord cs) :=
  @instDecidableAnd _ _ inferInstance (List.decidableBAll _ cs)

theorem words_append {w : List Char} (h : IsWord w) (cs : List Char) :
    words (w ++ ' ' :: cs) = w :: words cs := by
  rw [words, List.splitOnP_append_cons_of_forall_mem h.2 ' ' rfl, List.filter_cons_of_pos, words]
  simp [h.1]

/-- Words with a space between each two of them are read as these words. -/
theorem words_intercalate {ws : List (List Char)} (h : ∀ w ∈ ws, IsWord w) :
    words ([' '].intercalate ws) = ws := by
  induction ws with
  | nil => rfl
  | cons w ws ih =>
    obtain ⟨hw, hws⟩ := List.forall_mem_cons.mp h
    cases ws with
    | nil => simp [words, List.splitOnP_eq_singleton hw.2, hw.1]
    | cons w' ws =>
      rw [List.intercalate_cons_cons, List.append_assoc, List.singleton_append, words_append hw,
        ih hws]

theorem mem_intercalate {c : Char} {sep : List Char} {ws : List (List Char)}
    (hc : c ∈ sep.intercalate ws) : c ∈ sep ∨ ∃ w ∈ ws, c ∈ w := by
  induction ws with
  | nil => cases hc
  | cons w ws ih =>
    cases ws with
    | nil =>
      rw [List.intercalate_singleton] at hc
      exact Or.inr ⟨w, List.mem_singleton_self w, hc⟩
    | cons w' ws =>
      rw [List.intercalate_cons_cons, List.mem_append, List.mem_append] at hc
      rcases hc with (hc | hc) | hc
      · exact Or.inr ⟨w, List.mem_cons_self, hc⟩
      · exact Or.inl hc
      · rcases ih hc with hc | ⟨v, hv, hc⟩
        · exact Or.inl hc
        · exact Or.inr ⟨v, List.mem_cons_of_mem w hv, hc⟩

theorem mem_intercalate_of_mem {sep w : List Char} {ws : List (List Char)} (hw : w ∈ ws) {c : Char}
    (hc : c ∈ w) : c ∈ sep.intercalate ws := by
  induction ws with
  | nil => cases hw
  | cons first rest ih =>
    cases rest with
    | nil =>
      obtain rfl := List.mem_singleton.mp hw
      simpa using hc
    | cons next more =>
      rw [List.intercalate_cons_cons]
      rcases List.mem_cons.mp hw with rfl | hw
      · simp [hc]
      · simp [ih hw]

/-- Trimmed pieces put together are trimmed. -/
theorem trim_intercalate_of_trim (sep : List Char) {ws : List (List Char)}
    (h : ∀ w ∈ ws, w ≠ [] ∧ trim w = w) : trim (sep.intercalate ws) = sep.intercalate ws := by
  rw [trim_eq_self_iff]
  induction ws with
  | nil => simp
  | cons w ws ih =>
    obtain ⟨⟨hne, htrim⟩, hws⟩ := List.forall_mem_cons.mp h
    obtain ⟨hhead, hend⟩ := trim_eq_self_iff.mp htrim
    cases ws with
    | nil =>
      rw [List.intercalate_singleton]
      exact ⟨hhead, hend⟩
    | cons w' ws =>
      obtain ⟨-, hlast⟩ := ih hws
      have hrest : sep.intercalate (w' :: ws) ≠ [] := by
        have hw' := (hws w' List.mem_cons_self).1
        cases ws <;> simp [List.intercalate_cons_cons, hw']
      rw [List.intercalate_cons_cons]
      refine ⟨fun d hd => hhead d ?_, fun d hd => hlast d ?_⟩
      · rwa [List.append_assoc, List.head?_append_of_ne_nil _ hne] at hd
      · rwa [List.getLast?_append_of_ne_nil _ hrest] at hd

theorem trim_intercalate {ws : List (List Char)} (h : ∀ w ∈ ws, IsWord w) :
    trim ([' '].intercalate ws) = [' '].intercalate ws :=
  trim_intercalate_of_trim [' '] fun w hw => ⟨(h w hw).1, trim_of_forall (h w hw).2⟩

/-! ### What comes before the rest -/

theorem shortestBefore?_append {β : Type} {read : List Char → Option β} {value : β}
    (hrun : run.all p = true) (hread : read rest = some value)
    (hnone : ∀ s, s ≠ [] → s <:+ run → read (s ++ rest) = none) :
    shortestBefore? p read (run ++ rest) = some (run, value) := by
  induction run with
  | nil =>
    unfold shortestBefore?
    rw [List.nil_append, hread]
  | cons c more ih =>
    obtain ⟨hc, hmore⟩ := by simpa only [List.all_cons, Bool.and_eq_true] using hrun
    have hstep := hnone (c :: more) (List.cons_ne_nil _ _) List.suffix_rfl
    rw [List.cons_append] at hstep ⊢
    have htail := ih hmore fun s hs hsuffix => hnone s hs (hsuffix.trans (List.suffix_cons c more))
    rw [shortestBefore?, hstep, if_pos hc, htail]
    rfl

theorem someBefore?_append {β : Type} {read : List Char → Option β} {value : β} (hne : run ≠ [])
    (hrun : run.all p = true) (hread : read rest = some value)
    (hnone : ∀ s, s ≠ [] → s <:+ run → read (s ++ rest) = none) :
    someBefore? p read (run ++ rest) = some (run, value) := by
  obtain ⟨c, more, rfl⟩ := List.exists_cons_of_ne_nil hne
  obtain ⟨hc, hmore⟩ := by simpa only [List.all_cons, Bool.and_eq_true] using hrun
  rw [List.cons_append, someBefore?, if_pos hc, shortestBefore?_append hmore hread
    fun s hs hsuffix => hnone s hs (hsuffix.trans (List.suffix_cons c more))]
  rfl

/-! ### Phrases -/

theorem isEmpty_ofList (h : cs ≠ []) : (String.ofList cs).isEmpty = false := by
  rw [← Bool.not_eq_true, String.isEmpty_iff, ← String.toList_inj, String.toList_ofList]
  exact h

/-- A piece of a line that stands for itself: trimmed, not empty and without some characters. -/
structure Phrase (barred : List Char) where
  text : List Char
  trim_text : trim text = text
  ne_nil : text ≠ []
  plain : ∀ c ∈ text, c ∉ barred

namespace Phrase

variable {barred : List Char} (x : Phrase barred)

/-- The string of a phrase. -/
def toString : String := String.ofList x.text

/-- The phrase of a string. -/
def ofString (s : String) (h : trim s.toList = s.toList ∧ s.toList ≠ [] ∧
    s.toList.all (!barred.contains ·) = true) : Phrase barred where
  text := s.toList
  trim_text := h.1
  ne_nil := h.2.1
  plain c hc := by simpa using List.all_eq_true.mp h.2.2 c hc

/-- A phrase without fewer characters. -/
def weaken {fewer : List Char} (h : fewer ⊆ barred) : Phrase fewer :=
  { x with plain := fun c hc hmem => x.plain c hc (h hmem) }

theorem notMem_text {m : Char} (hm : m ∈ barred) : m ∉ x.text :=
  fun hmem => x.plain m hmem hm

theorem ne_of_mem {c m : Char} (hc : c ∈ x.text) (hm : m ∈ barred) : c ≠ m :=
  fun heq => x.notMem_text hm (heq ▸ hc)

theorem trimmed_text : trimmed x.text = x.toString :=
  congrArg String.ofList x.trim_text

theorem trimmed_comp_text : trimmed ∘ Phrase.text = @Phrase.toString barred :=
  funext Phrase.trimmed_text

theorem isEmpty_toString : x.toString.isEmpty = false := isEmpty_ofList x.ne_nil

theorem all_inLine (h : '\n' ∈ barred) : x.text.all inLine = true :=
  List.all_eq_true.mpr fun _ hc => bne_iff_ne.mpr (x.ne_of_mem hc h)

theorem head?_append (rest : List Char) : ∃ c ∈ x.text, isBlank c = false ∧
    (x.text ++ rest).head? = some c := by
  obtain ⟨c, more, hcons⟩ := List.exists_cons_of_ne_nil x.ne_nil
  refine ⟨c, ?_, (trim_eq_self_iff.mp x.trim_text).1 c ?_, ?_⟩ <;> simp [hcons]

theorem isBlank_of_head? (rest : List Char) : ∀ c ∈ (x.text ++ rest).head?, isBlank c = false := by
  obtain ⟨c, -, hc, hhead⟩ := x.head?_append rest
  intro d hd
  rwa [← Option.some.inj (hhead.symm.trans hd)]

theorem ne_of_head? {m : Char} (hm : m ∈ barred) (rest : List Char) :
    ∀ c ∈ (x.text ++ rest).head?, c ≠ m := by
  obtain ⟨c, hc, -, hhead⟩ := x.head?_append rest
  intro d hd
  rw [← Option.some.inj (hhead.symm.trans hd)]
  exact x.ne_of_mem hc hm

/-- What is left of a phrase is not blank, so a character of the phrase stands first when it is
trimmed. -/
theorem head?_trimLeft_append {s : List Char} (hne : s ≠ []) (hs : s <:+ x.text)
    (rest : List Char) : ∀ c ∈ (trimLeft (s ++ rest)).head?, c ∈ x.text := by
  have hdrop : s.dropWhile isBlank ≠ [] := by
    intro hnil
    have hblank := List.dropWhile_eq_nil_iff.mp hnil _ (List.getLast_mem hne)
    have hlast : x.text.getLast? = some (s.getLast hne) := by
      obtain ⟨front, hfront⟩ := hs
      rw [← hfront, List.getLast?_append_of_ne_nil _ hne, List.getLast?_eq_some_getLast hne]
    rw [(trim_eq_self_iff.mp x.trim_text).2 _ hlast] at hblank
    cases hblank
  intro c hc
  rw [trimLeft, (dropWhile_append_of_ne_nil hdrop rest).1,
    List.head?_append_of_ne_nil _ hdrop] at hc
  exact hs.subset ((List.dropWhile_suffix _).subset (List.mem_of_mem_head? hc))

end Phrase

end NoteGraph.Text
