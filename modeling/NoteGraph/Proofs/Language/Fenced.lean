import Mathlib.Algebra.Group.Nat.Even
import Mathlib.Data.List.Forall2
import Mathlib.Data.List.TakeWhile
import NoteGraph.Language.Statement
import NoteGraph.Proofs.Text.Written

/-!
# Documents with fences

A document is a run of lines, some of them in fences: a fence line, a body without fence lines
and the fence line that ends it, or a fence that is never closed. Five scanners read a document,
each with a flag of its own for being inside a fence. All of them read alike two documents whose
lines outside of fences read the same and whose fences open in the same language: bodies matter
only in the two languages of descriptions.
-/

namespace NoteGraph.Language

open Text

/-! ### Fence lines -/

theorem head?_of_isFence {line : String} (h : isFence line = true) :
    (trimLeft line.toList).head? = some (Char.ofNat 96) := by
  cases hcs : trimLeft line.toList with
  | nil =>
    simp [isFence, fenceLanguage?, hcs, after?, fenceMark, List.replicate] at h
  | cons c rest =>
    by_cases hc : Char.ofNat 96 = c
    · rw [hc, List.head?_cons]
    · rw [isFence, fenceLanguage?, hcs, fenceMark, List.replicate, after?_of_head? rfl hc] at h
      simp at h

theorem isBlankLine_of_isFence {line : String} (h : isFence line = true) :
    isBlankLine line = false := by
  have hhead := head?_of_isFence h
  by_contra hblank
  have hnil : trimLeft line.toList = [] := by
    rw [trimLeft, List.dropWhile_eq_nil_iff]
    simpa [isBlankLine] using hblank
  rw [hnil] at hhead
  cases hhead

theorem kind_of_isFence {line : String} (h : isFence line = true) :
    LineKind.ofLine line = .fence := by
  have hblank := isBlankLine_of_isFence h
  rw [isBlankLine] at hblank
  simp [LineKind.ofLine, hblank, h]

theorem isFence_iff {line : String} : isFence line = true ↔ LineKind.ofLine line = .fence := by
  refine ⟨kind_of_isFence, fun h => ?_⟩
  by_contra hfence
  simp only [LineKind.ofLine, if_neg hfence] at h
  split_ifs at h

theorem isMindmapHeading_of_isFence {line : String} (h : isFence line = true) :
    isMindmapHeading line = false := by
  simp [isMindmapHeading, MindmapHeading.ofLine?, after?_of_head? (head?_of_isFence h)]

theorem isMindmapItem_of_isFence {line : String} (h : isFence line = true) :
    isMindmapItem line = false := by
  simp [isMindmapItem, MindmapItem.ofLine?, after?_of_head? (head?_of_isFence h)]

/-! ### Documents -/

/-- Lines without fence lines. -/
def IsBody (lines : List String) : Prop := ∀ line ∈ lines, isFence line = false

theorem isBody_or_exists_fence (lines : List String) : IsBody lines ∨
    ∃ body close rest, lines = body ++ close :: rest ∧ IsBody body ∧ isFence close = true := by
  cases h : lines.find? isFence with
  | none =>
    refine Or.inl fun line hline => ?_
    simpa using List.find?_eq_none.mp h line hline
  | some close =>
    obtain ⟨hclose, body, rest, rfl, hbody⟩ := List.find?_eq_some_iff_append.mp h
    exact Or.inr ⟨body, close, rest, rfl, fun line hline => by simpa using hbody line hline, hclose⟩

/-- Documents are built from lines, fences and a last fence that is not closed. -/
@[elab_as_elim]
theorem fencedInduction {motive : List String → Prop} (nil : motive [])
    (line : ∀ line rest, isFence line = false → motive rest → motive (line :: rest))
    (fence : ∀ first body close rest, isFence first = true → IsBody body → isFence close = true →
      motive rest → motive (first :: (body ++ close :: rest)))
    (unclosed : ∀ first body, isFence first = true → IsBody body → motive (first :: body)) :
    ∀ lines, motive lines
  | [] => nil
  | first :: rest => by
    cases hfirst : isFence first with
    | false =>
      exact line first rest hfirst (fencedInduction nil line fence unclosed rest)
    | true =>
      rcases isBody_or_exists_fence rest with hbody | ⟨body, close, rest, rfl, hbody, hclose⟩
      · exact unclosed first rest hfirst hbody
      · exact fence first body close rest hfirst hbody hclose
          (fencedInduction nil line fence unclosed rest)
termination_by lines => lines.length
decreasing_by
  · exact Nat.lt_succ_self _
  · simp_all only [List.length_cons, List.length_append]
    omega

theorem IsBody.countP_eq_zero {body : List String} (h : IsBody body) :
    body.countP isFence = 0 :=
  List.countP_eq_zero.mpr fun line hline => ne_true_of_eq_false (h line hline)

/-- A fence adds its two fence lines. -/
theorem even_countP_fence {first close : String} {body rest : List String}
    (hfirst : isFence first = true) (hbody : IsBody body) (hclose : isFence close = true) :
    Even ((first :: (body ++ close :: rest)).countP isFence) ↔ Even (rest.countP isFence) := by
  rw [List.countP_cons_of_pos hfirst, List.countP_append, List.countP_cons_of_pos hclose,
    hbody.countP_eq_zero, Nat.zero_add, Nat.even_add_one, Nat.even_add_one, not_not]

/-- Documents whose fences are all closed are built from lines and fences. -/
@[elab_as_elim]
theorem closedInduction
    {motive : (lines : List String) → Even (lines.countP isFence) → Prop}
    (nil : ∀ heven, motive [] heven)
    (line : ∀ line rest heven heven', isFence line = false → motive rest heven →
      motive (line :: rest) heven')
    (fence : ∀ first body close rest heven heven', isFence first = true → IsBody body →
      isFence close = true → motive rest heven → motive (first :: (body ++ close :: rest)) heven')
    (lines : List String) (heven : Even (lines.countP isFence)) : motive lines heven := by
  induction lines using fencedInduction with
  | nil => exact nil heven
  | line l rest hl ih =>
    have hrest := heven
    rw [List.countP_cons_of_neg (ne_true_of_eq_false hl)] at hrest
    exact line l rest hrest heven hl (ih hrest)
  | fence o body c rest ho hbody hc ih =>
    have hrest := (even_countP_fence ho hbody hc).mp heven
    exact fence o body c rest hrest heven ho hbody hc (ih hrest)
  | unclosed o body ho hbody =>
    rw [List.countP_cons_of_pos ho, hbody.countP_eq_zero] at heven
    exact absurd heven Nat.not_even_one

/-! ### Documents that read alike -/

/-- Lines that read the same. -/
structure SameReading (l l' : String) : Prop where
  kind : LineKind.ofLine l = LineKind.ofLine l'
  text : trim l.toList = trim l'.toList
  statement : Statement.ofLine? l = Statement.ofLine? l'
  heading : MindmapHeading.ofLine? l = MindmapHeading.ofLine? l'
  item : MindmapItem.ofLine? l = MindmapItem.ofLine? l'
  currency : currencyOfLine? l = currencyOfLine? l'

theorem SameReading.refl (line : String) : SameReading line line := ⟨rfl, rfl, rfl, rfl, rfl, rfl⟩

theorem SameReading.symm {l l' : String} (h : SameReading l l') : SameReading l' l :=
  ⟨h.kind.symm, h.text.symm, h.statement.symm, h.heading.symm, h.item.symm, h.currency.symm⟩

theorem SameReading.trans {l l' l'' : String} (h : SameReading l l') (h' : SameReading l' l'') :
    SameReading l l'' :=
  ⟨h.kind.trans h'.kind, h.text.trans h'.text, h.statement.trans h'.statement,
    h.heading.trans h'.heading, h.item.trans h'.item, h.currency.trans h'.currency⟩

/-- The languages of fences whose bodies are read. -/
def describedLanguages : List String := [graphDescriptionFence, descriptionFence]

/-- Documents that read alike. A body may be anything unless it is read: that of a closed fence
as a description, that of a graph description that is not closed line by line. -/
inductive Alike : List String → List String → Prop where
  | nil : Alike [] []
  | line {l l' : String} {rest rest' : List String} (hl : isFence l = false)
      (hl' : isFence l' = false) (h : SameReading l l') (hrest : Alike rest rest') :
      Alike (l :: rest) (l' :: rest')
  | fence {o o' c c' : String} {body body' rest rest' : List String} (ho : isFence o = true)
      (ho' : isFence o' = true) (hlanguage : fenceLanguage o = fenceLanguage o')
      (hbody : IsBody body) (hbody' : IsBody body') (hc : isFence c = true)
      (hc' : isFence c' = true) (hread : fenceLanguage o ∈ describedLanguages → body = body')
      (hrest : Alike rest rest') : Alike (o :: (body ++ c :: rest)) (o' :: (body' ++ c' :: rest'))
  | unclosed {o o' : String} {body body' : List String} (ho : isFence o = true)
      (ho' : isFence o' = true) (hlanguage : fenceLanguage o = fenceLanguage o')
      (hbody : IsBody body) (hbody' : IsBody body')
      (hread : fenceLanguage o = graphDescriptionFence → List.Forall₂ SameReading body body') :
      Alike (o :: body) (o' :: body')

namespace Alike

theorem refl (lines : List String) : Alike lines lines := by
  induction lines using fencedInduction with
  | nil => exact nil
  | line l rest hl ih => exact line hl hl (.refl l) ih
  | fence o body c rest ho hbody hc ih =>
    exact fence ho ho rfl hbody hbody hc hc (fun _ => rfl) ih
  | unclosed o body ho hbody =>
    exact unclosed ho ho rfl hbody hbody fun _ => List.forall₂_same.mpr fun l _ => .refl l

theorem ofForall₂ {lines lines' : List String} (h : List.Forall₂ SameReading lines lines') :
    IsBody lines → IsBody lines' → Alike lines lines' := by
  induction h with
  | nil => exact fun _ _ => nil
  | cons hl _ ih =>
    intro hbody hbody'
    obtain ⟨hfence, hrest⟩ := List.forall_mem_cons.mp hbody
    obtain ⟨hfence', hrest'⟩ := List.forall_mem_cons.mp hbody'
    exact line hfence hfence' hl (ih hrest hrest')

/-- In front of alike documents the same lines may stand, if their fences are closed. -/
theorem append (front : List String) {lines lines' : List String} (h : Alike lines lines')
    (heven : Even (front.countP isFence)) : Alike (front ++ lines) (front ++ lines') := by
  induction front, heven using closedInduction with
  | nil => exact h
  | line l rest _ _ hl ih => exact line hl hl (.refl l) ih
  | fence o body c rest _ _ ho hbody hc ih =>
    rw [List.cons_append, List.cons_append, List.append_assoc, List.append_assoc]
    exact fence ho ho rfl hbody hbody hc hc (fun _ => rfl) ih

/-- The last line of a document whose fences are all closed may be any that reads the same. -/
theorem last {front : List String} {l l' : String} (h : SameReading l l')
    (heven : Even ((front ++ [l]).countP isFence)) : Alike (front ++ [l]) (front ++ [l']) := by
  have hfence : isFence l = isFence l' := by
    rw [Bool.eq_iff_iff, isFence_iff, isFence_iff, h.kind]
  induction front using fencedInduction with
  | nil =>
    have hl : isFence l = false := by
      by_contra hl
      simp [eq_true_of_ne_false hl] at heven
    exact line hl (hfence ▸ hl) h nil
  | line first rest hfirst ih =>
    rw [List.cons_append, List.countP_cons_of_neg (ne_true_of_eq_false hfirst)] at heven
    exact line hfirst hfirst (.refl first) (ih heven)
  | fence o body c rest ho hbody hc ih =>
    rw [List.cons_append, List.append_assoc, List.cons_append] at heven ⊢
    rw [List.cons_append, List.append_assoc, List.cons_append]
    exact fence ho ho rfl hbody hbody hc hc (fun _ => rfl)
      (ih ((even_countP_fence ho hbody hc).mp heven))
  | unclosed o body ho hbody =>
    -- the last line closes the fence
    have hl : isFence l = true := by
      by_contra hl
      rw [List.cons_append, List.countP_cons_of_pos ho, List.countP_append,
        hbody.countP_eq_zero, List.countP_singleton, if_neg hl] at heven
      exact Nat.not_even_one heven
    exact fence ho ho rfl hbody hbody hl (hfence ▸ hl) (fun _ => rfl) nil

end Alike

end NoteGraph.Language
