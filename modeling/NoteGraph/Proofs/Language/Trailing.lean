import NoteGraph.Proofs.Language.Fenced
import NoteGraph.Proofs.Text.Trailing

/-!
# Lines with blanks at their end

Fence lines, headings, relations and functions ignore blanks at the end of a line. Morph
headings, items of mindmaps, attributes and currencies do so unless the line stops short: it
ends where a name or a value is expected, and blanks are taken for one.
-/

namespace NoteGraph.Language

open Text

/-! ### Recognisers that ignore blanks at the end -/

theorem not_isLanguageChar {c : Char} (hc : isBlank c = true) : isLanguageChar c = false :=
  forall_isBlank (P := fun c => isLanguageChar c = false) (by decide +kernel) hc

theorem ignores_fenceLanguage? : Ignores fenceLanguage? := by
  let language? (x : List Char) : Option (List Char) :=
    if (x.dropWhile isLanguageChar).all isBlank then some (x.takeWhile isLanguageChar) else none
  have hlanguage : Ignores language? := by
    intro x w _ hw
    have hno : ∀ c ∈ w, isLanguageChar c ≠ true := fun c hc => by
      simp [not_isLanguageChar (hw c hc).1]
    by_cases hrest : x.dropWhile isLanguageChar = []
    · obtain ⟨hdrop, htake⟩ := dropWhile_append_of_eq_nil hrest w
      have hall : x.takeWhile isLanguageChar = x :=
        List.takeWhile_eq_self_iff.mpr (List.dropWhile_eq_nil_iff.mp hrest)
      have hblank : (w.dropWhile isLanguageChar).all isBlank = true :=
        (hw.suffix (List.dropWhile_suffix _)).all
      have hnone : w.takeWhile isLanguageChar = [] := by
        cases w with
        | nil => rfl
        | cons c rest => simp [hno c List.mem_cons_self]
      simp only [language?, hdrop, htake, hall, hnone, hrest, hblank, List.append_nil,
        List.all_nil]
    · obtain ⟨hdrop, htake⟩ := dropWhile_append_of_ne_nil hrest w
      simp only [language?, hdrop, htake, List.all_append, hw.all, Bool.and_true]
  exact (hlanguage.trimLeft.mark _ (by decide)).trimLeft

theorem ignores_relationAtEnd? : Ignores relationAtEnd? := by
  have hend : ∀ relation : List Char, Ignores fun x =>
      (after? ['>'] x).bind fun x => if x.all isBlank then some relation else none :=
    fun relation => (ignores_allBlank relation).mark _ (by decide)
  have hrun := Ignores.run (p := (· != '>')) hend fun _ => rfl
  exact Ignores.run (f := fun _ x => (after? ['<'] x).bind _) (fun _ => hrun.mark _ (by decide))
    fun _ => rfl

/-- The root and the relation of a mindmap heading, as they are written. -/
def mindmapParts? (line : List Char) : Option (List Char × List Char) :=
  (after? ['#'] (trimLeft line)).bind fun rest =>
    (restsAfterSome isBlank rest).findSome? (someBefore? inLine relationAtEnd?)

theorem MindmapHeading.ofLine?_eq (line : String) : MindmapHeading.ofLine? line =
    (mindmapParts? line.toList).map fun parts => ⟨trimmed parts.1, trimmed parts.2⟩ := by
  simp only [MindmapHeading.ofLine?, mindmapParts?, Option.bind_eq_bind]
  cases after? ['#'] (trimLeft line.toList) with
  | none => rfl
  | some rest =>
    simp only [Option.bind_some]
    cases (restsAfterSome isBlank rest).findSome? (someBefore? inLine relationAtEnd?) <;> rfl

theorem ignores_mindmapParts? : Ignores mindmapParts? :=
  ((ignores_relationAtEnd?.someBefore rfl inLine).longestSome rfl isBlank).mark _ (by decide)
    |>.trimLeft

theorem ignores_functionName? : Ignores functionName? := by
  have hend : ∀ name : List Char, Ignores fun x =>
      (after? ['"'] x).bind fun x => (after? [';'] (trimLeft x)).bind fun _ => some name := by
    intro name
    have hconst : Ignores fun _ => some name := fun _ _ _ _ => rfl
    exact ((hconst.mark _ (by decide)).trimLeft).mark _ (by decide)
  have hname := (Ignores.run (p := (· != '"')) hend fun _ => rfl).mark ['"'] (by decide)
  have hblanks : ∀ {f : List Char → Option (List Char)}, Ignores f → f [] = none →
      Ignores fun x => (afterBlanks? x).bind f := by
    intro f hf hnil
    have hrun := Ignores.run (p := isBlank) (f := fun _ => f) (fun _ => hf) fun _ => hnil
    intro x w hx hw
    simpa [afterBlanks?, Option.bind_map, Function.comp_def] using hrun x w hx hw
  have hfunction := hblanks hname rfl
  have hword := hblanks (hfunction.mark "function".toList (by decide)) (by rfl)
  exact (hword.mark hasWord (by decide)).trimLeft

/-! ### Relations -/

theorem map_shortestBefore? {β γ : Type} (p : Char → Bool) (read : List Char → Option β)
    (g : β → γ) (x : List Char) :
    (shortestBefore? p read x).map (fun r => (r.1, g r.2)) =
      shortestBefore? p (fun x => (read x).map g) x := by
  induction x with
  | nil => cases h : read [] <;> simp [shortestBefore?, h]
  | cons c rest ih =>
    rw [shortestBefore?, shortestBefore?, ← ih]
    cases read (c :: rest) with
    | some value => rfl
    | none =>
      simp only [Option.map_none]
      split_ifs
      · simp [Function.comp_def]
      · rfl

theorem map_someBefore? {β γ : Type} (p : Char → Bool) (read : List Char → Option β)
    (g : β → γ) (x : List Char) :
    (someBefore? p read x).map (fun r => (r.1, g r.2)) =
      someBefore? p (fun x => (read x).map g) x := by
  cases x with
  | nil => rfl
  | cons c rest =>
    rw [someBefore?, someBefore?, ← map_shortestBefore?]
    split_ifs
    · simp [Function.comp_def]
    · rfl

/-- The targets of a relation, trimmed, empty ones left out. -/
def splitTargets (targets : List Char) : List String :=
  ((targets.splitOn ';').map trimmed).filter (!·.isEmpty)

/-- Blanks at the end only lengthen the last part. -/
theorem exists_splitOn_append (x : List Char) {w : List Char} (hw : IsTail w) :
    ∃ front last, x.splitOn ';' = front ++ [last] ∧
      (x ++ w).splitOn ';' = front ++ [last ++ w] := by
  have hmark : ';' ∉ w := fun hc => hw.ne hc (d := ';') (by decide) rfl
  induction x with
  | nil => exact ⟨[], [], rfl, List.splitOn_eq_singleton hmark⟩
  | cons c rest ih =>
    obtain ⟨front, last, hrest, happend⟩ := ih
    have hcons : ∀ y : List Char, (c :: y).splitOn ';' =
        if c == ';' then [] :: y.splitOn ';' else (y.splitOn ';').modifyHead (c :: ·) :=
      fun y => List.splitOnP_cons_eq_if_modifyHead ..
    rw [List.cons_append, hcons, hcons, hrest, happend]
    split_ifs
    · exact ⟨[] :: front, last, rfl, rfl⟩
    · cases front with
      | nil => exact ⟨[], c :: last, rfl, rfl⟩
      | cons first front => exact ⟨(c :: first) :: front, last, rfl, rfl⟩

theorem splitTargets_append (x : List Char) {w : List Char} (hw : IsTail w) :
    splitTargets (x ++ w) = splitTargets x := by
  obtain ⟨front, last, hx, happend⟩ := exists_splitOn_append x hw
  simp [splitTargets, hx, happend, trimmed_append last hw]

/-- The name of a relation as it is written, and its targets. -/
def relationParts? (line : List Char) : Option (List Char × List String) :=
  (after? ['<'] (trimLeft line)).bind
    (someBefore? inLine fun x => (targetsAtEnd? x).map splitTargets)

theorem relationOfLine?_eq (line : String) : relationOfLine? line =
    (relationParts? line.toList).map fun parts => (trimmed parts.1, parts.2) := by
  simp only [relationOfLine?, relationParts?, Option.bind_eq_bind]
  cases after? ['<'] (trimLeft line.toList) with
  | none => rfl
  | some rest =>
    simp only [Option.bind_some, ← map_someBefore?]
    cases someBefore? inLine targetsAtEnd? rest <;> rfl

theorem ignores_relationParts? : Ignores relationParts? := by
  have htargets : Ignores fun x => (oneLine? x).map splitTargets := by
    intro x w hx hw
    beta_reduce
    rw [oneLine?_eq hx, oneLine?_eq (hx.append hw), Option.map_some, Option.map_some,
      splitTargets_append x hw]
  have hread : Ignores fun x => (targetsAtEnd? x).map splitTargets := by
    intro x w hx hw
    simpa [targetsAtEnd?, Option.map_bind, Function.comp_def] using
      (htargets.trimLeft.mark ['>'] (by decide)) x w hx hw
  exact ((hread.someBefore rfl inLine).mark _ (by decide)).trimLeft

/-! ### Recognisers that settle -/

theorem drop_length_takeWhile (p : Char → Bool) (x : List Char) :
    x.drop (x.takeWhile p).length = x.dropWhile p := by
  induction x with
  | nil => rfl
  | cons c rest ih => cases hc : p c <;> simp [hc, ih]

/-- The name and the value of an attribute line whose parts before and from the colon on are
known. -/
def attributeAfter? (head rest : List Char) : Option (List Char × List Char) :=
  (after? [':'] rest).bind fun rest => (attributeName? head).bind fun name =>
    value? (fun value => (name, value)) false rest

theorem attributeParts?_eq : attributeParts? = fun x =>
    attributeAfter? (x.takeWhile fun c => c != ':' && c != '<')
      (x.dropWhile fun c => c != ':' && c != '<') := by
  funext x
  simp only [attributeParts?, drop_length_takeWhile, attributeAfter?, Option.bind_eq_bind, value?,
    Bool.false_and, Bool.or_false]

theorem attributeAfter?_isTail (head : List Char) {w : List Char} (hw : IsTail w) :
    attributeAfter? head w = none := by
  simp only [attributeAfter?, after?_isTail (c := ':') (by decide) hw, Option.bind_none]

theorem settles_attributeParts? : Settles attributeParts? := by
  rw [attributeParts?_eq]
  refine Settles.span (fun head => ?_) fun head w => attributeAfter?_isTail head
  refine Settles.mark ?_ _ (by decide)
  cases attributeName? head with
  | none => exact fun _ _ _ _ _ _ => rfl
  | some name => exact settles_value _ false

theorem changesAfter_attributeParts? : ChangesAfter [':'] attributeParts? := by
  rw [attributeParts?_eq]
  refine ChangesAfter.span (fun head => ?_) fun head w => attributeAfter?_isTail head
  refine changesAfter_mark _ (fun x w _ hw hblank => ?_) (by decide)
  cases attributeName? head with
  | none => rfl
  | some name => exact value?_append _ false (by rintro rfl; exact hblank rfl) hw

/-- The name on a morph heading, trimmed. -/
def morphHeading? (line : List Char) : Option String :=
  (after? ['#', '#'] (trimLeft line)).bind fun rest => (lineAfterBlanks? rest).map trimmed

theorem settles_morphHeading? : Settles morphHeading? :=
  (settles_name.mark _ (by decide)).trimLeft

theorem changesAfter_morphHeading? : ChangesAfter ['#', '#'] morphHeading? :=
  (changesAfter_mark _ (fun _ _ => name_append_of_not_blank) (by decide)).trimLeft

theorem isMorphHeading_eq (line : List Char) :
    isMorphHeading line = (morphHeading? line).isSome := by
  unfold isMorphHeading morphHeading?
  cases after? ['#', '#'] (trimLeft line) with
  | none => rfl
  | some rest => simp

/-- The item of a line whose blanks in front and rest are known. -/
def itemAfter? (blanks rest : List Char) : Option MindmapItem :=
  (after? ['-'] rest).bind fun rest =>
    ((lineAfterBlanks? rest).map trimmed).map (MindmapItem.mk blanks.length)

/-- The item of a line, by its characters. -/
def itemParts? (line : List Char) : Option MindmapItem :=
  itemAfter? (line.takeWhile isBlank) (line.dropWhile isBlank)

theorem MindmapItem.ofLine?_eq (line : String) :
    MindmapItem.ofLine? line = itemParts? line.toList := by
  simp only [MindmapItem.ofLine?, itemParts?, itemAfter?, Option.bind_eq_bind, trimLeft]
  cases after? ['-'] (line.toList.dropWhile isBlank) with
  | none => rfl
  | some rest =>
    simp only [Option.bind_some]
    cases lineAfterBlanks? rest <;> rfl

theorem itemAfter?_isTail (blanks : List Char) {w : List Char} (hw : IsTail w) :
    itemAfter? blanks w = none := by
  simp only [itemAfter?, after?_isTail (c := '-') (by decide) hw, Option.bind_none]

theorem settles_itemParts? : Settles itemParts? :=
  Settles.span (fun _ => (settles_name.map _).mark _ (by decide)) fun blanks _ =>
    itemAfter?_isTail blanks

theorem changesAfter_itemParts? : ChangesAfter ['-'] itemParts? := by
  refine ChangesAfter.span (fun blanks => ?_) fun blanks _ => itemAfter?_isTail blanks
  refine changesAfter_mark _ (fun x w hx hw hblank => ?_) (by decide)
  exact congrArg (Option.map _) (name_append_of_not_blank hx hw hblank)

/-- The currency after the word of a currency line. -/
def currencyAfter? (rest : List Char) : Option String :=
  (after? [':'] (trimLeft rest)).bind (value? String.ofList true)

/-- The currency of a line without blanks in front, by its characters. -/
def currencyParts? (line : List Char) : Option String :=
  if (line.take 8).map Char.toLower = "currency".toList then currencyAfter? (line.drop 8)
  else none

theorem currencyOfLine?_eq (line : String) :
    currencyOfLine? line = currencyParts? (trimLeft line.toList) := by
  simp only [currencyOfLine?, currencyParts?, currencyAfter?, Option.bind_eq_bind, trimmed,
    value?, Bool.true_and, show "currency".toList.length = 8 from rfl, bne_iff_ne, ne_eq]
  split_ifs
  · rfl
  · rfl

theorem toLower_of_isBlank {c : Char} (hc : isBlank c = true) : c.toLower = c :=
  forall_isBlank (P := fun c => c.toLower = c) (by decide +kernel) hc

theorem currencyParts?_append {x : List Char} (hlength : 8 ≤ x.length) (w : List Char) :
    currencyParts? (x ++ w) =
      if (x.take 8).map Char.toLower = "currency".toList then currencyAfter? (x.drop 8 ++ w)
      else none := by
  rw [currencyParts?, List.take_append_of_le_length hlength,
    List.drop_append_of_le_length hlength]

/-- The word cannot end among blanks. -/
theorem currencyParts?_append_of_short {x w : List Char} (hlength : x.length < 8)
    (hw : IsTail w) : currencyParts? (x ++ w) = currencyParts? x := by
  cases w with
  | nil => rw [List.append_nil]
  | cons c rest =>
    have hblank : isBlank c = true := (hw c List.mem_cons_self).1
    have hc : c ∈ (x ++ c :: rest).take 8 := by
      rw [List.take_append]
      refine List.mem_append_right _ ?_
      rw [List.take_cons (by omega)]
      exact List.mem_cons_self
    have hword : ((x ++ c :: rest).take 8).map Char.toLower ≠ "currency".toList := by
      intro heq
      have hmem := heq ▸ List.mem_map_of_mem (f := Char.toLower) hc
      rw [toLower_of_isBlank hblank] at hmem
      have hno : "currency".toList.any isBlank = false := by decide
      exact List.any_eq_false.mp hno c hmem hblank
    have hshort : (x.take 8).map Char.toLower ≠ "currency".toList := by
      intro heq
      have hlen := congrArg List.length heq
      rw [List.length_map, List.length_take] at hlen
      have : "currency".toList.length = 8 := rfl
      omega
    rw [currencyParts?, currencyParts?, if_neg hword, if_neg hshort]

theorem settles_currencyParts? : Settles currencyParts? := by
  have hafter : Settles currencyAfter? :=
    ((settles_value String.ofList true).mark _ (by decide)).trimLeft
  intro x v w hx hw hsome
  by_cases hlength : 8 ≤ x.length
  · rw [currencyParts?_append hlength, currencyParts?] at hsome ⊢
    split_ifs at hsome ⊢
    · exact hafter _ v w (hx.suffix (List.drop_suffix 8 x)) hw hsome
    · rfl
  · exact currencyParts?_append_of_short (by omega) hw.tail'

theorem changesAfter_currencyParts? : ChangesAfter [':'] currencyParts? := by
  have hafter : ChangesAfter [':'] currencyAfter? := by
    refine (changesAfter_mark _ (fun x w _ hw hblank => ?_) (by decide)).trimLeft
    exact value?_append _ true (by rintro rfl; exact hblank rfl) hw
  intro x w hx hw hends
  by_cases hlength : 8 ≤ x.length
  · have hsuffix : x.drop 8 <:+ x := List.drop_suffix 8 x
    rw [currencyParts?_append hlength, currencyParts?]
    split_ifs
    · exact hafter _ w (hx.suffix hsuffix) hw fun hrest => hends (hrest.of_suffix hsuffix)
    · rfl
  · exact currencyParts?_append_of_short (by omega) hw

/-! ### Fence lines -/

section Fences

variable {line tail : String}

theorem fenceLanguage?_append (hline : IsLine line.toList) (htail : IsTail tail.toList) :
    fenceLanguage? (line ++ tail).toList = fenceLanguage? line.toList := by
  rw [String.toList_append, ignores_fenceLanguage? _ _ hline htail]

/-- Fence lines are told by what stands before the blanks at their end. -/
theorem isFence_append (hline : IsLine line.toList) (htail : IsTail tail.toList) :
    isFence (line ++ tail) = isFence line := by
  rw [isFence, isFence, fenceLanguage?_append hline htail]

theorem fenceLanguage_append (hline : IsLine line.toList) (htail : IsTail tail.toList) :
    fenceLanguage (line ++ tail) = fenceLanguage line := by
  rw [fenceLanguage, fenceLanguage, fenceLanguage?_append hline htail]

end Fences

end NoteGraph.Language
