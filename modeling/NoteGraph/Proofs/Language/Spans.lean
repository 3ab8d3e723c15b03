import NoteGraph.Language.Span
import NoteGraph.Proofs.Text.Written

/-!
# Spans between marks

A span stands between an opening mark and a closing one; it is not empty and does not have the
character that a closing mark starts with. Wherever a text can be cut at a span, the search for the
first one finds a span (`Marks.find?_eq_none_iff`), and it finds the span behind a text that does
not have the first character of an opening mark (`Marks.findAfter?_written`).
-/

namespace NoteGraph.Language

open Text

/-- A cut of a text at a span. -/
structure Cut.AtSpan (m : Marks) (text : List Char) (cut : Cut) : Prop where
  text_eq : text = cut.before ++ (m.opening ++ (cut.inside ++ (m.closing ++ cut.after)))
  inside_ne_nil : cut.inside ≠ []
  notMem_inside : m.barred ∉ cut.inside

namespace Marks

variable {m : Marks} {cs inside after : List Char} {first : Char} {mark : List Char}

theorem spanHere?_eq_some_iff (hclosing : m.closing.head? = some m.barred) :
    m.spanHere? cs = some (inside, after) ↔ Cut.AtSpan m cs ⟨[], inside, after⟩ := by
  constructor
  · intro h
    simp only [spanHere?, Option.bind_eq_bind, Option.bind_eq_some_iff, Prod.exists] at h
    obtain ⟨rest, hopens, run, more, hrun, back, hcloses, hspan⟩ := h
    obtain ⟨rfl, rfl⟩ := Prod.mk.inj (Option.some.inj hspan)
    obtain ⟨hrest, hall, hne, -⟩ := run?_eq_some_iff.mp hrun
    refine ⟨?_, hne, fun hmem => ?_⟩
    · rw [after?_eq_some_iff.mp hopens, hrest, after?_eq_some_iff.mp hcloses]
      rfl
    · exact bne_iff_ne.mp (List.all_eq_true.mp hall _ hmem) rfl
  · rintro ⟨rfl, hne, hbarred⟩
    have hall : inside.all (· != m.barred) = true :=
      List.all_eq_true.mpr fun c hc => bne_iff_ne.mpr fun heq => hbarred (heq ▸ hc)
    have hstop : ∀ c ∈ (m.closing ++ after).head?, (c != m.barred) = false := by
      obtain ⟨more, hcons⟩ := List.head?_eq_some_iff.mp hclosing
      rw [hcons]
      exact forall_mem_head?_cons.mpr (bne_self_eq_false _)
    have hrun := run?_eq_some_iff.mpr ⟨rfl, hall, hne, hstop⟩
    simp [spanHere?, after?_eq_some_iff.mpr rfl, hrun]

theorem spanHere?_eq_none (hopening : m.opening = first :: mark) {c : Char} (hc : c ≠ first) :
    m.spanHere? (c :: cs) = none := by
  rw [spanHere?, hopening, after?_eq_none (forall_mem_head?_cons.mpr hc) mark]
  rfl

/-! ### The first span -/

/-- A text without the first mark of a span has none. -/
theorem findAfter?_eq_none (hopening : m.opening = first :: mark) (hfirst : first ∉ cs)
    (before : List Char) : m.findAfter? before cs = none := by
  induction cs generalizing before with
  | nil => rfl
  | cons c rest ih =>
    obtain ⟨hc, hrest⟩ := not_or.mp (List.mem_cons.not.mp hfirst)
    rw [findAfter?, spanHere?_eq_none hopening (Ne.symm hc)]
    exact ih hrest (c :: before)

variable (hclosing : m.closing.head? = some m.barred)
include hclosing

theorem atSpan_of_findAfter? {before : List Char} {cut : Cut}
    (h : m.findAfter? before cs = some cut) : cut.AtSpan m (before.reverse ++ cs) := by
  induction cs generalizing before with
  | nil => cases h
  | cons c rest ih =>
    rw [findAfter?] at h
    cases hspan : m.spanHere? (c :: rest) with
    | some span =>
      obtain ⟨hcs, hne, hbarred⟩ := (spanHere?_eq_some_iff hclosing).mp hspan
      rw [hspan] at h
      obtain rfl := Option.some.inj h
      exact ⟨congrArg (before.reverse ++ ·) hcs, hne, hbarred⟩
    | none =>
      rw [hspan] at h
      have hcut := ih h
      rwa [List.reverse_cons, List.append_assoc, List.singleton_append] at hcut

theorem findAfter?_ne_none {cut : Cut} (h : cut.AtSpan m cs) :
    ∀ before, m.findAfter? before cs ≠ none := by
  obtain ⟨front, inside, after⟩ := cut
  induction front generalizing cs with
  | nil =>
    have hspan := (spanHere?_eq_some_iff hclosing).mpr h
    intro before
    cases cs with
    | nil =>
      have hnil := h.text_eq
      simp [h.inside_ne_nil] at hnil
    | cons c rest => simp [findAfter?, hspan]
  | cons c front ih =>
    obtain ⟨rfl, hne, hbarred⟩ := h
    have hrest := ih ⟨rfl, hne, hbarred⟩
    intro before
    rw [List.cons_append, findAfter?]
    cases m.spanHere? (c :: _) with
    | some span => exact Option.some_ne_none _
    | none => exact hrest (c :: before)

/-- A span is found if there is one. -/
theorem find?_eq_none_iff : m.find? cs = none ↔ ∀ cut : Cut, ¬cut.AtSpan m cs := by
  constructor
  · exact fun h cut hcut => findAfter?_ne_none hclosing hcut [] h
  · intro h
    cases hfind : m.find? cs with
    | none => rfl
    | some cut => exact absurd (atSpan_of_findAfter? hclosing hfind) (h cut)

/-- The first span is found where the first mark of its kind is. -/
theorem findAfter?_written (hopening : m.opening = first :: mark) {front : List Char}
    (hfront : first ∉ front) (hne : inside ≠ []) (hbarred : m.barred ∉ inside)
    (before : List Char) :
    m.findAfter? before (front ++ (m.opening ++ (inside ++ (m.closing ++ after)))) =
      some ⟨before.reverse ++ front, inside, after⟩ := by
  induction front generalizing before with
  | nil =>
    have hspan := (@spanHere?_eq_some_iff m _ inside after hclosing).mpr ⟨rfl, hne, hbarred⟩
    rw [List.nil_append, hopening, List.cons_append] at hspan
    rw [List.nil_append, hopening, List.cons_append, findAfter?, hspan, List.append_nil]
  | cons c front ih =>
    obtain ⟨hc, hfront⟩ := not_or.mp (mt List.mem_cons.mpr hfront)
    rw [List.cons_append, findAfter?, spanHere?_eq_none hopening (Ne.symm hc)]
    dsimp only
    rw [ih hfront, List.reverse_cons, List.append_assoc, List.singleton_append]

end Marks

end NoteGraph.Language
