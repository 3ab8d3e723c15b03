import Mathlib.Computability.Language
import NoteGraph.Language.Name
import NoteGraph.Proofs.Text.Words

/-!
# Names and their words

The identifier of a name is made in steps: blanks around the name are trimmed off, it is put into
lower case, all but Latin letters, digits, hyphens and blanks is left out, blanks are trimmed off
again, and an underscore is put for each run of blanks that is left. What comes out depends on the
words of the name alone, and it tells them: blanks around a name do not change how it is put into
lower case, and no underscore is left in a word.
-/

namespace NoteGraph.Language

open Computability Text

/-! ### Underscores for blanks -/

theorem intercalate_modifyHead (c : Char) {ws : List (List Char)} (h : ws ≠ []) (sep : List Char) :
    sep.intercalate (ws.modifyHead (c :: ·)) = c :: sep.intercalate ws := by
  obtain ⟨w, ws, rfl⟩ := List.exists_cons_of_ne_nil h
  cases ws with
  | nil => rw [List.modifyHead_cons, List.intercalate_singleton, List.intercalate_singleton]
  | cons w' ws =>
    rw [List.modifyHead_cons, List.intercalate_cons_cons, List.intercalate_cons_cons,
      List.append_assoc, List.append_assoc, List.cons_append]

/-- A text that does not end with a blank is its words with an underscore between each two of
them, after one more if it starts with a blank. -/
theorem underscored_eq {cs : List Char} (h : ∀ c ∈ cs.getLast?, isBlank c = false) :
    underscored cs = (if cs.head?.any isBlank then ['_'] else []) ++
      ['_'].intercalate (words cs) := by
  induction cs with
  | nil => rfl
  | cons c rest ih =>
    cases rest with
    | nil =>
      have hc : isBlank c = false := h c rfl
      rw [words_cons_of_head? hc (by simp)]
      simp [underscored, hc, words]
    | cons d rest =>
      have hlast : ∀ e ∈ (d :: rest).getLast?, isBlank e = false := fun e he =>
        h e (by rwa [List.getLast?_cons_cons])
      have hne : words (d :: rest) ≠ [] := by
        rw [Ne, words_eq_nil_iff]
        intro hall
        have hblank := hall _ (List.getLast_mem (List.cons_ne_nil d rest))
        rw [hlast _ (List.getLast?_eq_some_getLast _)] at hblank
        cases hblank
      have hmore := ih hlast
      rw [List.head?_cons, Option.any_some] at hmore ⊢
      rw [underscored, hmore, List.head?_cons, Option.any_some]
      cases hc : isBlank c with
      | true =>
        rw [words_cons_of_blank hc]
        cases hd : isBlank d <;> simp
      | false =>
        cases hd : isBlank d with
        | true =>
          rw [words_cons_of_head? hc (by simpa using hd)]
          obtain ⟨w, ws, hwords⟩ := List.exists_cons_of_ne_nil hne
          rw [hwords, List.intercalate_cons_cons]
          simp
        | false =>
          rw [words_cons_cons hc hd, intercalate_modifyHead c hne]
          simp

theorem underscored_trim (cs : List Char) :
    underscored (trim cs) = ['_'].intercalate (words cs) := by
  obtain ⟨hhead, hlast⟩ := trim_eq_self_iff.mp (trim_trim cs)
  rw [underscored_eq hlast, words_trim]
  cases hcs : (trim cs).head? with
  | none => rfl
  | some c =>
    rw [Option.any_some, hhead c hcs]
    rfl

/-! ### The words of a name -/

/-- The words of a name that count for its identifier. -/
def nameWords (name : List Char) : List (List Char) :=
  words ((lower name).filter fun c => isNameChar c || isBlank c)

/-- Words joined by underscores. -/
def joinWords (ws : List (List Char)) : String := String.ofList (['_'].intercalate ws)

theorem isNameChar_of_isBlank {c : Char} (h : isBlank c = true) : isNameChar c = false :=
  forall_isBlank (P := fun c => isNameChar c = false) (by decide) h

theorem joinWords_eq_empty_iff {ws : List (List Char)} (h : ∀ w ∈ ws, w ≠ []) :
    joinWords ws = "" ↔ ws = [] := by
  cases ws with
  | nil => simp [joinWords]
  | cons w ws =>
    have hw := h w List.mem_cons_self
    cases ws <;> simp [joinWords, List.intercalate_cons_cons, hw]

/-- The steps by which an identifier is made put the words of the name together. -/
theorem cleanName_eq (name : String) : cleanName name = joinWords (nameWords name.toList) := by
  obtain ⟨v, w, hv, hw, heq⟩ := exists_append_trim_append name.toList
  have hkeep : ∀ {b : List Char}, b.all isBlank = true →
      b.filter (fun c => isNameChar c || isBlank c) = b := fun hb =>
    List.filter_eq_self.mpr fun c hc => by simp [List.all_eq_true.mp hb c hc]
  have hwords : nameWords name.toList = words (keptOf name.toList) := by
    conv_lhs => rw [heq]
    rw [nameWords, lower_blanks_around hv hw, List.filter_append, List.filter_append, hkeep hv,
      hkeep hw, words_blanks_around hv hw, keptOf]
  rw [cleanName, underscored_trim, hwords]
  rfl

/-- A word of a name: at least one character, all of them kept. -/
def IsNameWord (w : List Char) : Prop := w ≠ [] ∧ ∀ c ∈ w, isNameChar c = true

theorem isNameWord_of_mem {name w : List Char} (h : w ∈ nameWords name) : IsNameWord w := by
  refine ⟨ne_nil_of_mem_words h, fun c hc => ?_⟩
  obtain ⟨hmem, hblank⟩ := mem_of_mem_words h hc
  have hkept := (List.mem_filter.mp hmem).2
  rwa [hblank, Bool.or_false] at hkept

/-! ### Identifiers -/

/-- One kept character. -/
def nameLetter : Language Char := {cs | ∃ c, isNameChar c = true ∧ cs = [c]}

/-- Kept characters, at least one. -/
def nameWord : Language Char := nameLetter * nameLetter∗

/-- Words with an underscore between each two of them, or nothing. -/
def identifiers : Language Char := 1 + nameWord * ({['_']} * nameWord)∗

theorem IsNameWord.mem {w : List Char} (h : IsNameWord w) : w ∈ nameWord := by
  obtain ⟨c, rest, rfl⟩ := List.exists_cons_of_ne_nil h.1
  obtain ⟨hc, hrest⟩ := List.forall_mem_cons.mp h.2
  refine Language.mem_mul.mpr ⟨[c], ⟨c, hc, rfl⟩, rest, ?_, rfl⟩
  refine Language.mem_kstar.mpr ⟨rest.map ([·]), (List.flatMap_singleton' rest).symm, ?_⟩
  intro cs hcs
  obtain ⟨d, hd, rfl⟩ := List.mem_map.mp hcs
  exact ⟨d, hrest d hd, rfl⟩

theorem intercalate_cons_eq (sep w : List Char) (ws : List (List Char)) :
    sep.intercalate (w :: ws) = w ++ (ws.map (sep ++ ·)).flatten := by
  induction ws generalizing w with
  | nil => simp
  | cons w' ws ih =>
    rw [List.intercalate_cons_cons, ih, List.map_cons, List.flatten_cons, List.append_assoc,
      List.append_assoc]

theorem intercalate_mem_identifiers {ws : List (List Char)} (h : ∀ w ∈ ws, IsNameWord w) :
    ['_'].intercalate ws ∈ identifiers := by
  rw [identifiers, Language.mem_add]
  cases ws with
  | nil => exact .inl rfl
  | cons w ws =>
    obtain ⟨hw, hws⟩ := List.forall_mem_cons.mp h
    refine .inr (Language.mem_mul.mpr ⟨w, hw.mem, _, ?_, (intercalate_cons_eq _ w ws).symm⟩)
    refine Language.mem_kstar.mpr ⟨_, rfl, fun cs hcs => ?_⟩
    obtain ⟨w', hw', rfl⟩ := List.mem_map.mp hcs
    exact Language.mem_mul.mpr ⟨['_'], rfl, w', (hws w' hw').mem, rfl⟩

theorem IsNameWord.underscore_notMem {w : List Char} (h : IsNameWord w) : '_' ∉ w := by
  intro hmem
  have hkept := h.2 _ hmem
  revert hkept
  decide

/-- Words are told apart when they are put together: no underscore stands in a word. -/
theorem joinWords_inj {ws ws' : List (List Char)} (h : ∀ w ∈ ws, IsNameWord w)
    (h' : ∀ w ∈ ws', IsNameWord w) : joinWords ws = joinWords ws' ↔ ws = ws' := by
  refine ⟨fun heq => ?_, fun heq => heq ▸ rfl⟩
  by_cases hnil : ws = []
  · subst hnil
    exact ((joinWords_eq_empty_iff fun w hw => (h' w hw).1).mp heq.symm).symm
  · have hnil' : ws' ≠ [] := by
      rintro rfl
      exact hnil ((joinWords_eq_empty_iff fun w hw => (h w hw).1).mp heq)
    have hjoined := String.ofList_inj.mp heq
    rw [← List.splitOn_intercalate '_' (fun w hw => (h w hw).underscore_notMem) hnil, hjoined,
      List.splitOn_intercalate '_' (fun w hw => (h' w hw).underscore_notMem) hnil']

/-- **Identifiers and words**: the identifier of a name is its words with an underscore between
each two of them. So it is made of runs of kept characters with single underscores between them, and
two names have one identifier exactly if they have the same words. -/
theorem cleanName_tells_words (name : String) :
    cleanName name = joinWords (nameWords name.toList) ∧
    (cleanName name).toList ∈ identifiers ∧
    ∀ other, cleanName name = cleanName other ↔
      nameWords name.toList = nameWords other.toList := by
  refine ⟨cleanName_eq name, ?_, fun other => ?_⟩
  · rw [cleanName_eq, joinWords, String.toList_ofList]
    exact intercalate_mem_identifiers fun w hw => isNameWord_of_mem hw
  · rw [cleanName_eq, cleanName_eq]
    exact joinWords_inj (fun w hw => isNameWord_of_mem hw) fun w hw => isNameWord_of_mem hw

/-- Blanks and marks around words are gone, and so is the dot that the small letter leaves. -/
example : cleanName " The\t*Hot*  - İce-9! " = "the_hot_-_ice-9" := by decide +kernel

end NoteGraph.Language
