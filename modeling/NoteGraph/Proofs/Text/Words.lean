import NoteGraph.Proofs.Text.Written
import NoteGraph.Text.Lowercase

/-!
# Words of a text

Blanks end the words of a text and do nothing else: those around a text make no words, and they do
not change how it is put into lower case, because no cased letter is looked for beyond a blank.
-/

namespace NoteGraph.Text

/-! ### Words -/

section Words

variable {c d : Char} {rest cs w : List Char}

theorem words_append_cons (hc : isBlank c = true) (cs rest : List Char) :
    words (cs ++ c :: rest) = words cs ++ words rest := by
  rw [words, List.splitOnP_append_cons cs rest hc, List.filter_append, words, words]

theorem words_cons_of_blank (hc : isBlank c = true) (rest : List Char) :
    words (c :: rest) = words rest :=
  words_append_cons hc [] rest

/-- A character in front of a blank is a word of its own. -/
theorem words_cons_of_head? (hc : isBlank c = false) (hrest : ∀ d ∈ rest.head?, isBlank d = true) :
    words (c :: rest) = [c] :: words rest := by
  have hone : words [c] = [[c]] := by
    simp [words, List.splitOnP_cons_eq_if_modifyHead, hc]
  cases rest with
  | nil => exact hone
  | cons d rest =>
    have hd := hrest d rfl
    have hsplit := words_append_cons hd [c] rest
    rw [hone] at hsplit
    rw [words_cons_of_blank hd]
    exact hsplit

/-- A character in front of a word belongs to it. -/
theorem words_cons_cons (hc : isBlank c = false) (hd : isBlank d = false) (rest : List Char) :
    words (c :: d :: rest) = (words (d :: rest)).modifyHead (c :: ·) := by
  obtain ⟨first, more, hsplit⟩ := List.exists_cons_of_ne_nil (List.splitOnP_ne_nil isBlank rest)
  simp [words, List.splitOnP_cons_eq_if_modifyHead, hc, hd, hsplit]

theorem words_eq_nil_iff {cs : List Char} : words cs = [] ↔ ∀ c ∈ cs, isBlank c = true := by
  induction cs with
  | nil => simp [words]
  | cons c rest ih =>
    rw [List.forall_mem_cons, ← ih, words, words, List.splitOnP_cons_eq_if_modifyHead]
    cases hc : isBlank c with
    | true => simp
    | false =>
      obtain ⟨first, more, hsplit⟩ := List.exists_cons_of_ne_nil (List.splitOnP_ne_nil isBlank rest)
      simp [hsplit]

theorem ne_nil_of_mem_words {cs w : List Char} (h : w ∈ words cs) : w ≠ [] := by
  have hkept := (List.mem_filter.mp h).2
  simpa using hkept

/-- Words have no blanks, and all their characters are those of the text. -/
theorem mem_of_mem_words (hw : w ∈ words cs) (hc : c ∈ w) : c ∈ cs ∧ isBlank c = false := by
  induction cs generalizing w with
  | nil => cases hw
  | cons d rest ih =>
    have hmore : ∀ {w}, w ∈ words rest → c ∈ w → c ∈ d :: rest ∧ isBlank c = false :=
      fun hw hc => ⟨List.mem_cons_of_mem d (ih hw hc).1, (ih hw hc).2⟩
    cases hd : isBlank d with
    | true =>
      rw [words_cons_of_blank hd] at hw
      exact hmore hw hc
    | false =>
      have hself : d ∈ d :: rest ∧ isBlank d = false := ⟨List.mem_cons_self, hd⟩
      cases rest with
      | nil =>
        rw [words_cons_of_head? hd (by simp)] at hw
        obtain rfl := List.mem_singleton.mp hw
        obtain rfl := List.mem_singleton.mp hc
        exact hself
      | cons e more =>
        cases he : isBlank e with
        | true =>
          rw [words_cons_of_head? hd (by simpa using he)] at hw
          rcases List.mem_cons.mp hw with rfl | hw
          · obtain rfl := List.mem_singleton.mp hc
            exact hself
          · exact hmore hw hc
        | false =>
          rw [words_cons_cons hd he] at hw
          cases hwords : words (e :: more) with
          | nil =>
            rw [hwords] at hw
            cases hw
          | cons first others =>
            rw [hwords] at hw
            rcases List.mem_cons.mp hw with rfl | hw
            · rcases List.mem_cons.mp hc with rfl | hc
              · exact hself
              · exact hmore (hwords ▸ List.mem_cons_self) hc
            · exact hmore (hwords ▸ List.mem_cons_of_mem _ hw) hc

/-- Blanks around a text make no words. -/
theorem words_blanks_around {v w : List Char} (hv : v.all isBlank = true)
    (hw : w.all isBlank = true) (cs : List Char) : words (v ++ (cs ++ w)) = words cs := by
  induction v with
  | nil =>
    cases w with
    | nil => rw [List.nil_append, List.append_nil]
    | cons b w =>
      rw [List.all_cons, Bool.and_eq_true] at hw
      rw [List.nil_append, words_append_cons hw.1, words_eq_nil_iff.mpr (List.all_eq_true.mp hw.2),
        List.append_nil]
  | cons b v ih =>
    rw [List.all_cons, Bool.and_eq_true] at hv
    rw [List.cons_append, words_cons_of_blank hv.1, ih hv.2]

theorem words_trim (cs : List Char) : words (trim cs) = words cs := by
  obtain ⟨v, w, hv, hw, heq⟩ := exists_append_trim_append cs
  conv_rhs => rw [heq, words_blanks_around hv hw]

end Words

/-! ### Lower case between blanks -/

theorem lowerChar_of_isBlank {c : Char} (h : isBlank c = true) : lowerChar c = c :=
  forall_isBlank (P := fun c => lowerChar c = c) (by decide +kernel) h

theorem case_of_isBlank {c : Char} (h : isBlank c = true) :
    caseIgnorable.holds c = false ∧ casedLetters.holds c = false :=
  forall_isBlank (P := fun c => caseIgnorable.holds c = false ∧ casedLetters.holds c = false)
    (by decide +kernel) h

/-- No cased letter is met beyond blanks. -/
theorem meetsCased_append {w : List Char} (hw : w.all isBlank = true) (cs : List Char) :
    meetsCased (cs ++ w) = meetsCased cs := by
  induction cs with
  | nil =>
    cases w with
    | nil => rfl
    | cons b w =>
      rw [List.all_cons, Bool.and_eq_true] at hw
      obtain ⟨hignored, hcased⟩ := case_of_isBlank hw.1
      simp [meetsCased, hignored, hcased]
  | cons c cs ih =>
    unfold meetsCased at ih ⊢
    rw [List.cons_append, List.find?_cons, List.find?_cons]
    cases !caseIgnorable.holds c with
    | true => rfl
    | false => exact ih

theorem lowerAfter_cons_of_blank {b : Char} (hb : isBlank b = true) (before rest : List Char) :
    lowerAfter before (b :: rest) = b :: lowerAfter (b :: before) rest := by
  have hsigma : b ≠ 'Σ' := (ne_of_isBlank hb (by decide)).symm
  have hdotted : b ≠ 'İ' := (ne_of_isBlank hb (by decide)).symm
  rw [lowerAfter, if_neg hsigma, if_neg hdotted, lowerChar_of_isBlank hb]
  rfl

theorem lowerAfter_blanks {v : List Char} (hv : v.all isBlank = true) (cs : List Char) :
    ∀ before, lowerAfter before (v ++ cs) = v ++ lowerAfter (v.reverse ++ before) cs := by
  induction v with
  | nil => exact fun _ => rfl
  | cons b v ih =>
    rw [List.all_cons, Bool.and_eq_true] at hv
    intro before
    rw [List.cons_append, lowerAfter_cons_of_blank hv.1, ih hv.2, List.reverse_cons,
      List.append_assoc, List.cons_append, List.singleton_append]

/-- Blanks around a text do not change how it is put into lower case. -/
theorem lowerAfter_append {v w : List Char} (hv : v.all isBlank = true) (hw : w.all isBlank = true)
    (cs : List Char) :
    ∀ before, lowerAfter (before ++ v) (cs ++ w) = lowerAfter before cs ++ w := by
  induction cs with
  | nil =>
    intro before
    have hblanks := lowerAfter_blanks hw [] (before ++ v)
    rwa [List.append_nil, lowerAfter, List.append_nil] at hblanks
  | cons c cs ih =>
    intro before
    have hrest := ih (c :: before)
    rw [List.cons_append] at hrest
    rw [List.cons_append, lowerAfter, lowerAfter, meetsCased_append hv, meetsCased_append hw, hrest,
      List.append_assoc]

theorem lower_blanks_around {v w : List Char} (hv : v.all isBlank = true)
    (hw : w.all isBlank = true) (cs : List Char) :
    lower (v ++ (cs ++ w)) = v ++ (lower cs ++ w) := by
  have hreverse : v.reverse.all isBlank = true := by rwa [List.all_reverse]
  rw [lower, lowerAfter_blanks hv, List.append_nil]
  exact congrArg (v ++ ·) (lowerAfter_append hreverse hw cs [])

end NoteGraph.Text
