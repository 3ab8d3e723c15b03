import NoteGraph.Proofs.Text.Written
import NoteGraph.Schema.Block

/-!
# Fields as they are written

The fields of a line are cut at the commas outside of quotes. What is written for a field is bare
text without quotes and commas, or any text between quotes of a kind that it does not have; either
adds the same characters to the field (`Spells`), so fields are read as they were written,
whatever stands between the quotes.
-/

namespace NoteGraph.Schema

open Text

/-! ### Cutting -/

-- The fields are cut one character after another, so the cutting is opened by its equations.
attribute [local simp] cutFields

/-- A stretch of a text that adds some characters to a field, whatever stands around it. -/
def Spells (written field : List Char) : Prop :=
  ∀ current rest, cutFields none current (written ++ rest) =
    cutFields none (field.reverse ++ current) rest

/-- Text without the characters that the cutting looks for. -/
def IsBare (cs : List Char) : Prop := ∀ c ∈ cs, c ≠ '\'' ∧ c ≠ '"' ∧ c ≠ ','

instance (cs : List Char) : Decidable (IsBare cs) := List.decidableBAll _ cs

theorem IsBare.append {cs cs' : List Char} (h : IsBare cs) (h' : IsBare cs') :
    IsBare (cs ++ cs') :=
  List.forall_mem_append.mpr ⟨h, h'⟩

theorem spells_bare {cs : List Char} (h : IsBare cs) : Spells cs cs := by
  induction cs with
  | nil => exact fun _ _ => rfl
  | cons c cs ih =>
    obtain ⟨⟨hsingle, hdouble, hcomma⟩, hcs⟩ := List.forall_mem_cons.mp h
    intro current rest
    rw [List.cons_append, cutFields]
    simp only [hsingle, hdouble, hcomma, decide_false, Bool.or_false, Bool.false_eq_true, if_false]
    rw [ih hcs, List.reverse_cons, List.append_assoc, List.singleton_append]

/-- Between quotes every character counts. -/
theorem cutFields_inside {mark : Char} {cs : List Char} (h : mark ∉ cs) (rest : List Char) :
    ∀ current, cutFields (some mark) current (cs ++ mark :: rest) =
      cutFields none (cs.reverse ++ current) rest := by
  induction cs with
  | nil =>
    intro current
    rw [List.nil_append, cutFields, if_pos rfl]
    rfl
  | cons c cs ih =>
    obtain ⟨hc, hcs⟩ := not_or.mp (mt List.mem_cons.mpr h)
    intro current
    rw [List.cons_append, cutFields, if_neg (Ne.symm hc), ih hcs, List.reverse_cons,
      List.append_assoc, List.singleton_append]

theorem spells_quoted {mark : Char} (hmark : mark = '\'' ∨ mark = '"') {cs : List Char}
    (h : mark ∉ cs) : Spells (mark :: (cs ++ [mark])) cs := by
  intro current rest
  have hopen : (mark = '\'' || mark = '"') = true := by simpa using hmark
  rw [List.cons_append, cutFields, if_pos hopen, List.append_assoc, List.singleton_append]
  exact cutFields_inside h rest current

/-! ### Blanks around fields -/

/-- Blanks in front of a field are trimmed off. -/
theorem map_trim_cutFields_append {w : List Char} (hw : w.all isBlank = true)
    (cs : List Char) : ∀ quote current, (cutFields quote (current ++ w) cs).map trim =
      (cutFields quote current cs).map trim := by
  have hreverse : w.reverse.all isBlank = true := by rwa [List.all_reverse]
  have hpiece : ∀ current : List Char, trim (current ++ w).reverse = trim current.reverse :=
    fun current => by rw [List.reverse_append, trim_all_append hreverse]
  induction cs with
  | nil =>
    intro quote current
    rw [cutFields, cutFields, List.map_singleton, List.map_singleton, hpiece]
  | cons c cs ih =>
    intro quote current
    have hstep := fun quote => ih quote (c :: current)
    cases quote with
    | some mark =>
      rw [cutFields, cutFields]
      split_ifs
      · exact ih none current
      · exact hstep (some mark)
    | none =>
      rw [cutFields, cutFields]
      split_ifs
      · exact ih (some c) current
      · rw [List.map_cons, List.map_cons, hpiece]
      · exact hstep none

theorem isBare_of_all_blank {w : List Char} (hw : w.all isBlank = true) : IsBare w := by
  intro c hc
  have hne : ∀ d : Char, isBlank d = false → c ≠ d := fun d hd =>
    (ne_of_isBlank (List.all_eq_true.mp hw c hc) hd).symm
  exact ⟨hne _ rfl, hne _ rfl, hne _ rfl⟩

/-- A quote that is never closed takes all that is left. -/
theorem cutFields_unclosed {mark : Char} {cs : List Char} (h : mark ∉ cs) :
    ∀ current, cutFields (some mark) current cs = [current.reverse ++ cs] := by
  induction cs with
  | nil => exact fun current => by rw [cutFields, List.append_nil]
  | cons c cs ih =>
    obtain ⟨hc, hcs⟩ := not_or.mp (mt List.mem_cons.mpr h)
    intro current
    rw [cutFields, if_neg (Ne.symm hc), ih hcs, List.reverse_cons, List.append_assoc,
      List.singleton_append]

theorem cutFields_all_blank {w : List Char} (hw : w.all isBlank = true) {quote : Option Char}
    (hquote : ∀ mark ∈ quote, isBlank mark = false) (current : List Char) :
    cutFields quote current w = [current.reverse ++ w] := by
  cases quote with
  | some mark =>
    refine cutFields_unclosed (fun hmem => ?_) current
    exact ne_of_isBlank (List.all_eq_true.mp hw mark hmem) (hquote mark rfl) rfl
  | none =>
    have hcut := spells_bare (isBare_of_all_blank hw) current []
    rw [List.append_nil, cutFields, List.reverse_append, List.reverse_reverse] at hcut
    exact hcut

/-- Blanks behind the last field are trimmed off. -/
theorem map_trim_cutFields_behind {w : List Char} (hw : w.all isBlank = true) (cs : List Char) :
    ∀ quote : Option Char, (∀ mark ∈ quote, isBlank mark = false) → ∀ current,
      (cutFields quote current (cs ++ w)).map trim = (cutFields quote current cs).map trim := by
  induction cs with
  | nil =>
    intro quote hquote current
    rw [List.nil_append, cutFields_all_blank hw hquote, cutFields]
    simp [trim_append_of_all _ hw]
  | cons c cs ih =>
    intro quote hquote current
    have hnone := ih none fun _ h => nomatch h
    cases quote with
    | some mark =>
      rw [List.cons_append, cutFields, cutFields]
      split_ifs
      · exact hnone current
      · exact ih (some mark) hquote (c :: current)
    | none =>
      rw [List.cons_append, cutFields, cutFields]
      split_ifs with hmark
      · refine ih (some c) (fun mark hc => ?_) current
        obtain rfl := Option.some.inj hc
        simp only [Bool.or_eq_true, decide_eq_true_eq] at hmark
        rcases hmark with rfl | rfl <;> rfl
      · rw [List.map_cons, List.map_cons, hnone]
      · exact hnone (c :: current)

theorem splitFields_eq (cs : List Char) : splitFields (String.ofList cs) =
    (((cutFields none [] cs).map trim).map String.ofList).filter (!·.isEmpty) := by
  rw [splitFields, String.toList_ofList, List.map_map]
  rfl

/-- The fields of a text do not depend on the blanks around it. -/
theorem splitFields_trimmed (cs : List Char) :
    splitFields (trimmed cs) = splitFields (String.ofList cs) := by
  obtain ⟨v, w, hv, hw, heq⟩ := exists_append_trim_append cs
  have hbehind := map_trim_cutFields_behind hw (v ++ trim cs) none (fun _ h => nomatch h) []
  have hfront : (cutFields none [] (v ++ trim cs)).map trim =
      (cutFields none [] (trim cs)).map trim := by
    have hreverse : v.reverse.all isBlank = true := by rwa [List.all_reverse]
    rw [spells_bare (isBare_of_all_blank hv), List.append_nil]
    simpa using map_trim_cutFields_append hreverse (trim cs) none []
  rw [trimmed, splitFields_eq, splitFields_eq, ← hfront, ← hbehind, List.append_assoc, ← heq]

/-! ### Written fields -/

/-- Fields are read as they were written, each with a comma and a space behind it but the last. -/
theorem map_trim_cutFields_intercalate {written fields : List (List Char)}
    (h : List.Forall₂ Spells written fields) (hne : written ≠ []) :
    (cutFields none [] ([',', ' '].intercalate written)).map trim = fields.map trim := by
  induction h with
  | nil => exact absurd rfl hne
  | @cons w field more fields hw hmore ih =>
    cases hmore with
    | nil =>
      have hlast := hw [] []
      rw [List.append_nil] at hlast
      rw [List.intercalate_singleton, hlast, List.append_nil, cutFields, List.reverse_reverse]
    | @cons w' field' more fields hw' hmore =>
      have hspace := map_trim_cutFields_append (w := [' ']) rfl
        ([',', ' '].intercalate (w' :: more)) none []
      rw [List.nil_append] at hspace
      have hrest := ih (List.cons_ne_nil _ _)
      rw [List.intercalate_cons_cons, List.append_assoc, hw, List.append_nil]
      have hcut : cutFields none field.reverse
          ([',', ' '] ++ [',', ' '].intercalate (w' :: more)) =
            field :: cutFields none [' '] ([',', ' '].intercalate (w' :: more)) := by
        rw [List.cons_append, cutFields, List.reverse_reverse]
        rfl
      rw [hcut, List.map_cons, hspace, hrest]
      rfl

theorem splitFields_intercalate {written fields : List (List Char)}
    (h : List.Forall₂ Spells written fields) (hne : written ≠ []) :
    splitFields (String.ofList ([',', ' '].intercalate written)) =
      (fields.map trimmed).filter (!·.isEmpty) := by
  rw [splitFields_eq, map_trim_cutFields_intercalate h hne, List.map_map]
  rfl

end NoteGraph.Schema
