import NoteGraph.Proofs.Language.Trailing

/-!
# Lines that stop short

Blanks behind a line change it if they make it a line of another kind, an item of a mindmap or a
currency line. A line stops short if two blanks change it. Blanks behind any other line change
nothing of how it reads, and a line that blanks change ends in two hashes, a hyphen or a colon.
Fence lines and headings of nodes are never changed.
-/

namespace NoteGraph.Language

open Text

variable {line tail tail' : String}

/-! ### How lines begin -/

theorem head?_of_after? {c : Char} {mark cs rest : List Char}
    (h : after? (c :: mark) cs = some rest) : cs.head? = some c := by
  rw [after?_eq_some_iff.mp h, List.cons_append, List.head?_cons]

theorem head?_of_currency (h : (currencyOfLine? line).isSome = true) :
    (trimLeft line.toList).head?.map Char.toLower = some 'c' := by
  rw [currencyOfLine?_eq, currencyParts?] at h
  split_ifs at h with hword
  · cases hcs : trimLeft line.toList with
    | nil => simp [hcs] at hword
    | cons c rest =>
      rw [hcs] at hword
      exact congrArg some (List.cons.inj hword).1
  · cases h

theorem head?_of_item (h : isMindmapItem line = true) :
    (trimLeft line.toList).head? = some '-' := by
  rw [isMindmapItem, MindmapItem.ofLine?] at h
  cases hrest : after? ['-'] (trimLeft line.toList) with
  | none => simp [hrest] at h
  | some rest => exact head?_of_after? hrest

theorem exists_after_hash {line : List Char} (h : isNodeHeading line = true) :
    ∃ rest, after? ['#'] (trimLeft line) = some rest ∧ rest.head?.any isBlank = true := by
  rw [isNodeHeading] at h
  cases hrest : after? ['#'] (trimLeft line) with
  | none => simp [hrest] at h
  | some rest =>
    rw [hrest] at h
    exact ⟨rest, rfl, (Bool.and_eq_true_iff.mp h).1⟩

theorem isMorphHeading_of_isNodeHeading {line : List Char} (h : isNodeHeading line = true) :
    isMorphHeading line = false := by
  obtain ⟨rest, hrest, hblank⟩ := exists_after_hash h
  -- a blank follows the hash, so there is no second one
  have hno : after? ['#', '#'] (trimLeft line) = none := by
    rw [after?_eq_some_iff.mp hrest]
    cases rest with
    | nil => simp at hblank
    | cons c rest =>
      have hc : '#' ≠ c := ne_of_isBlank (by simpa using hblank) (by decide)
      simp [after?, hc]
  simp [isMorphHeading, hno]

theorem isNodeHeading_of_mindmap (hline : IsLine line.toList)
    (h : isMindmapHeading line = true) : isNodeHeading line.toList = true := by
  rw [isMindmapHeading, MindmapHeading.ofLine?_eq, Option.isSome_map, mindmapParts?] at h
  cases hrest : after? ['#'] (trimLeft line.toList) with
  | none => simp [hrest] at h
  | some rest =>
    rw [hrest, Option.bind_some] at h
    have hhead : rest.head?.any isBlank = true := by
      by_contra hne
      cases rest with
      | nil => simp [restsAfterSome] at h
      | cons c rest => simp_all [restsAfterSome]
    have hname : rest.any (fun c => !isBlank c) = true := by
      by_contra hne
      have hline' : IsLine rest :=
        (hline.suffix (List.dropWhile_suffix isBlank)).suffix
          ⟨['#'], (after?_eq_some_iff.mp hrest).symm⟩
      simp only [List.any_eq_true, Bool.not_eq_true', not_exists, not_and,
        Bool.not_eq_false] at hne
      have htail : IsTail rest := fun c hc => ⟨hne c hc, fun heq => hline' (heq ▸ hc)⟩
      rw [((ignores_relationAtEnd?.someBefore rfl inLine).longestSome rfl isBlank).eq_none rfl
        htail] at h
      cases h
    rw [isNodeHeading, hrest]
    simp [hhead, hname]

theorem isNodeHeading_of_kind (h : LineKind.ofLine line = .nodeHeading) :
    isNodeHeading line.toList = true := by
  simp only [LineKind.ofLine] at h
  split_ifs at h with hblank hfence hdeep hmorph hnode
  exact hnode

/-- What is not the heading of a node is not the heading of a mindmap either. -/
theorem not_heading (hline : IsLine line.toList) (h : isNodeHeading line.toList = false) :
    LineKind.ofLine line ≠ .nodeHeading ∧ isMindmapHeading line = false := by
  constructor
  · exact fun hkind => ne_true_of_eq_false h (isNodeHeading_of_kind hkind)
  · by_contra hmindmap
    exact ne_true_of_eq_false h (isNodeHeading_of_mindmap hline (eq_true_of_ne_false hmindmap))

/-! ### Kinds of lines and blanks -/

theorem ignores_isSome_mark (mark : List Char) (hmark : mark.any isBlank = false) :
    Ignores fun x => (after? mark (trimLeft x)).map fun _ => () := by
  have hconst : Ignores fun _ => some () := fun _ _ _ _ => rfl
  intro x w hx hw
  simpa [Option.map_eq_bind, Function.comp_def] using (hconst.mark mark hmark).trimLeft x w hx hw

theorem isNodeHeading_append {x w : List Char} (hx : IsLine x) (hw : IsTail w) :
    isNodeHeading (x ++ w) = isNodeHeading x := by
  let name? (rest : List Char) : Option Unit :=
    if rest.head?.any isBlank && rest.any (!isBlank ·) then some () else none
  have hname : Ignores name? := by
    intro x w _ hw
    have hnone : w.any (!isBlank ·) = false := by
      simpa using fun c hc => (hw c hc).1
    cases x with
    | nil => simp only [name?, List.nil_append, hnone, Bool.and_false, List.any_nil]
    | cons c rest =>
      simp only [name?, List.cons_append, List.head?_cons, List.any_cons, List.any_append, hnone,
        Bool.or_false]
      rfl
  have heq : ∀ x, isNodeHeading x = ((after? ['#'] (trimLeft x)).bind name?).isSome := by
    intro x
    unfold isNodeHeading
    cases after? ['#'] (trimLeft x) with
    | none => rfl
    | some rest =>
      simp only [Option.bind_some, name?]
      split_ifs with h <;> simp_all
  rw [heq, heq]
  exact congrArg Option.isSome ((hname.mark ['#'] (by decide)).trimLeft x w hx hw)

theorem isDeepHeading_append {x w : List Char} (hx : IsLine x) (hw : IsTail w) :
    isDeepHeading (x ++ w) = isDeepHeading x := by
  have hmark := ignores_isSome_mark ['#', '#', '#'] (by decide) x w hx hw
  simpa [isDeepHeading] using congrArg Option.isSome hmark

theorem head?_trimLeft_append {x w : List Char} (hx : x.all isBlank ≠ true) :
    (trimLeft (x ++ w)).head? = (trimLeft x).head? := by
  have hne : trimLeft x ≠ [] := mt trimLeft_eq_nil_iff.mp hx
  rw [trimLeft_append_of_ne_nil hne, List.head?_append_of_ne_nil _ hne]

/-- The kind of a line, given whether it is a morph heading and has the parts of an attribute. -/
def kindWith (line : String) (isMorph isAttribute : Bool) : LineKind :=
  if line.toList.all isBlank then .blank
  else if isFence line then .fence
  else if isDeepHeading line.toList then .text
  else if isMorph then .morphHeading
  else if isNodeHeading line.toList then .nodeHeading
  else if (trimLeft line.toList).head? = some '<' then
    if (relationOfLine? line).isSome then .relation else .text
  else if (functionOfLine? line).isSome then .function
  else if isAttribute then .attribute
  else .text

theorem ofLine_eq_kindWith (line : String) : LineKind.ofLine line =
    kindWith line (isMorphHeading line.toList) (attributeParts? line.toList).isSome :=
  rfl

theorem relationOfLine?_append (hline : IsLine line.toList) (htail : IsTail tail.toList) :
    relationOfLine? (line ++ tail) = relationOfLine? line := by
  rw [relationOfLine?_eq, relationOfLine?_eq, String.toList_append,
    ignores_relationParts? _ _ hline htail]

theorem functionOfLine?_append (hline : IsLine line.toList) (htail : IsTail tail.toList) :
    functionOfLine? (line ++ tail) = functionOfLine? line := by
  rw [functionOfLine?, functionOfLine?, String.toList_append,
    ignores_functionName? _ _ hline htail]

theorem kindWith_append (hline : IsLine line.toList) (htail : IsTail tail.toList)
    (isMorph isAttribute : Bool) :
    kindWith (line ++ tail) isMorph isAttribute = kindWith line isMorph isAttribute := by
  unfold kindWith
  rw [isFence_append hline htail, relationOfLine?_append hline htail,
    functionOfLine?_append hline htail, String.toList_append, isDeepHeading_append hline htail,
    isNodeHeading_append hline htail, List.all_append, htail.all, Bool.and_true]
  by_cases hblank : line.toList.all isBlank = true
  · rw [if_pos hblank, if_pos hblank]
  · rw [head?_trimLeft_append hblank]

theorem ite_eq_or {α : Type} {c : Prop} [Decidable c] {t e e' x : α} (h : e = x ∨ e = e') :
    (if c then t else e) = x ∨ (if c then t else e) = if c then t else e' := by
  by_cases hc : c
  · simp [hc]
  · simpa [hc] using h

theorem kindWith_cases (line : String) (isMorph isAttribute : Bool) :
    kindWith line isMorph isAttribute = .morphHeading ∨
      kindWith line isMorph isAttribute = .attribute ∨
        kindWith line isMorph isAttribute = kindWith line false false := by
  cases isMorph with
  | true =>
    have hmorph : kindWith line true isAttribute = .morphHeading ∨
        kindWith line true isAttribute = kindWith line false false := by
      apply ite_eq_or; apply ite_eq_or; apply ite_eq_or
      exact .inl rfl
    exact hmorph.imp_right .inr
  | false =>
    refine .inr ?_
    cases isAttribute with
    | true =>
      apply ite_eq_or; apply ite_eq_or; apply ite_eq_or; apply ite_eq_or
      apply ite_eq_or; apply ite_eq_or; apply ite_eq_or
      exact .inl rfl
    | false => exact .inr rfl

/-- Two kinds of a line are the same that agree on morph headings and attributes. -/
theorem kindWith_eq {morph morph₂ isAttribute attribute₂ : Bool}
    (hmorph : kindWith line morph₂ attribute₂ = .morphHeading ↔
      kindWith line morph isAttribute = .morphHeading)
    (hattribute : kindWith line morph₂ attribute₂ = .attribute ↔
      kindWith line morph isAttribute = .attribute) :
    kindWith line morph₂ attribute₂ = kindWith line morph isAttribute := by
  rcases kindWith_cases line morph₂ attribute₂ with h₂ | h₂ | h₂
  · rw [h₂, hmorph.mp h₂]
  · rw [h₂, hattribute.mp h₂]
  · rcases kindWith_cases line morph isAttribute with h | h | h
    · rw [h, hmorph.mpr h]
    · rw [h, hattribute.mpr h]
    · rw [h₂, h]

/-- Where the kind does not change neither flag changes that it depends on. -/
theorem kindWith_settles {morph morph₂ morph' attribute₂ isAttribute : Bool}
    (h : kindWith line morph₂ attribute₂ = kindWith line morph isAttribute)
    (hmorph : morph₂ = morph → morph' = morph) :
    (∀ attribute', (attribute₂ = isAttribute → attribute' = isAttribute) →
        kindWith line morph' attribute' = kindWith line morph isAttribute) ∧
      (kindWith line morph isAttribute = .attribute → attribute₂ = isAttribute) := by
  unfold kindWith at h ⊢
  by_cases hearly : line.toList.all isBlank = true ∨ isFence line = true ∨
      isDeepHeading line.toList = true
  · clear h
    rcases hearly with hearly | hearly | hearly
    · simp [hearly]
    · simp only [hearly, if_true]
      split_ifs <;> simp
    · simp only [hearly, if_true]
      split_ifs <;> simp
  · simp only [not_or] at hearly
    simp only [hearly] at h ⊢
    cases morph with
    | true =>
      cases morph₂ with
      | true => simp [hmorph rfl]
      | false => simp only [if_true, Bool.false_eq_true, if_false] at h; split_ifs at h
    | false =>
      cases morph₂ with
      | true => simp only [if_true, Bool.false_eq_true, if_false] at h; split_ifs at h
      | false =>
        simp only [hmorph rfl, Bool.false_eq_true, if_false] at h ⊢
        split_ifs at h ⊢ <;> simp_all

/-- The kind of a line settles, and so do the parts of an attribute. -/
theorem kind_append (hline : IsLine line.toList) (htails : Tells tail.toList tail'.toList)
    (h : LineKind.ofLine (line ++ tail) = LineKind.ofLine line) :
    LineKind.ofLine (line ++ tail') = LineKind.ofLine line ∧
      (LineKind.ofLine line = .attribute →
        attributeParts? (line ++ tail').toList = attributeParts? line.toList) := by
  have hmorph : isMorphHeading (line ++ tail).toList = isMorphHeading line.toList →
      isMorphHeading (line ++ tail').toList = isMorphHeading line.toList := by
    simp only [isMorphHeading_eq, String.toList_append]
    exact fun hsome => congrArg Option.isSome (settles_morphHeading? _ _ _ hline htails hsome)
  have hattribute : (attributeParts? (line ++ tail).toList).isSome =
      (attributeParts? line.toList).isSome →
        attributeParts? (line ++ tail').toList = attributeParts? line.toList := by
    simp only [String.toList_append]
    exact settles_attributeParts? _ _ _ hline htails
  rw [ofLine_eq_kindWith, kindWith_append hline htails.tail, ofLine_eq_kindWith] at h
  rw [ofLine_eq_kindWith, kindWith_append hline htails.tail', ofLine_eq_kindWith]
  obtain ⟨hkind, hparts⟩ := kindWith_settles h hmorph
  exact ⟨hkind _ fun hsome => congrArg Option.isSome (hattribute hsome),
    fun hkind => hattribute (hparts hkind)⟩

/-! ### Lines that blanks change -/

/-- Blanks behind a line change it: they make it a line of another kind, an item or a currency
line. -/
def ChangedBy (tail line : String) : Prop :=
  LineKind.ofLine (line ++ tail) ≠ LineKind.ofLine line ∨
    isMindmapItem (line ++ tail) ≠ isMindmapItem line ∨
      (currencyOfLine? (line ++ tail)).isSome ≠ (currencyOfLine? line).isSome

instance (tail line : String) : Decidable (ChangedBy tail line) :=
  inferInstanceAs (Decidable (_ ∨ _ ∨ _))

/-- A line that stops short: two blanks make it a line of another kind, an item or a currency
line. -/
def StopsShort (line : String) : Prop := ChangedBy "  " line

instance (line : String) : Decidable (StopsShort line) :=
  inferInstanceAs (Decidable (ChangedBy "  " line))

/-- A line that blanks change ends in two hashes, a hyphen or a colon, but for blanks. -/
theorem ChangedBy.endsIn (hline : IsLine line.toList) (htail : IsTail tail.toList)
    (h : ChangedBy tail line) :
    EndsIn ['#', '#'] line.toList ∨ EndsIn ['-'] line.toList ∨ EndsIn [':'] line.toList := by
  by_contra hno
  simp only [not_or] at hno
  obtain ⟨hhashes, hhyphen, hcolon⟩ := hno
  have hmorph := changesAfter_morphHeading? _ _ hline htail hhashes
  have hattribute := changesAfter_attributeParts? _ _ hline htail hcolon
  have hitem := changesAfter_itemParts? _ _ hline htail hhyphen
  have hcurrency := changesAfter_currencyParts?.trimLeft _ _ hline htail hcolon
  rcases h with h | h | h
  · apply h
    rw [ofLine_eq_kindWith, kindWith_append hline htail, ofLine_eq_kindWith, isMorphHeading_eq,
      isMorphHeading_eq, String.toList_append, hmorph, hattribute]
  · apply h
    rw [isMindmapItem, isMindmapItem, MindmapItem.ofLine?_eq, MindmapItem.ofLine?_eq,
      String.toList_append, hitem]
  · apply h
    rw [currencyOfLine?_eq, currencyOfLine?_eq, String.toList_append]
    exact congrArg Option.isSome hcurrency

/-- Blanks at the end do not change how a line reads that the blanks do not change that tell what
they do. -/
theorem SameReading.append (hline : IsLine line.toList) (htails : Tells tail.toList tail'.toList)
    (h : ¬ChangedBy tail line) : SameReading (line ++ tail') line := by
  simp only [ChangedBy, not_or, not_not] at h
  obtain ⟨hkind, hitem, hcurrency⟩ := h
  obtain ⟨hkind', hparts⟩ := kind_append hline htails hkind
  have htail := htails.tail'
  refine ⟨hkind', ?_, ?_, ?_, ?_, ?_⟩
  · rw [String.toList_append, trim_append _ htail]
  · rw [Statement.ofLine?, Statement.ofLine?, hkind']
    cases hline' : LineKind.ofLine line with
    | «attribute» =>
      simp only [AttributeLine.ofLine?, hparts hline']
    | function => simp only [functionOfLine?_append hline htail]
    | relation => simp only [relationOfLine?_append hline htail]
    | _ => rfl
  · rw [MindmapHeading.ofLine?_eq, MindmapHeading.ofLine?_eq, String.toList_append,
      ignores_mindmapParts? _ _ hline htail]
  · rw [isMindmapItem, isMindmapItem, MindmapItem.ofLine?_eq, MindmapItem.ofLine?_eq,
      String.toList_append] at hitem
    rw [MindmapItem.ofLine?_eq, MindmapItem.ofLine?_eq, String.toList_append]
    exact settles_itemParts? _ _ _ hline htails hitem
  · rw [currencyOfLine?_eq, currencyOfLine?_eq, String.toList_append] at hcurrency
    rw [currencyOfLine?_eq, currencyOfLine?_eq, String.toList_append]
    exact settles_currencyParts?.trimLeft _ _ _ hline htails hcurrency

theorem head?_trimLeft_append_tail {c : Char} (htail : IsTail tail.toList)
    (h : (trimLeft line.toList).head? = some c ∨ (trimLeft (line ++ tail).toList).head? = some c) :
    (trimLeft line.toList).head? = some c ∧ (trimLeft (line ++ tail).toList).head? = some c := by
  rw [String.toList_append] at h ⊢
  by_cases hblank : line.toList.all isBlank = true
  · have hnil := trimLeft_eq_nil_iff.mpr hblank
    rw [trimLeft_append_of_eq_nil hnil htail, hnil] at h
    simp at h
  · rw [head?_trimLeft_append hblank] at h ⊢
    simpa using h

/-- Fence lines and headings of nodes are not changed by blanks. -/
theorem not_changedBy_of_opening (hline : IsLine line.toList) (htail : IsTail tail.toList)
    (h : isFence line = true ∨ isNodeHeading line.toList = true) : ¬ChangedBy tail line := by
  have hkind : LineKind.ofLine (line ++ tail) = LineKind.ofLine line := by
    rcases h with h | h
    · rw [kind_of_isFence h, kind_of_isFence ((isFence_append hline htail).trans h)]
    · have h₂ : isNodeHeading (line ++ tail).toList = true := by
        rw [String.toList_append, isNodeHeading_append hline htail, h]
      rw [ofLine_eq_kindWith, ofLine_eq_kindWith, kindWith_append hline htail,
        isMorphHeading_of_isNodeHeading h, isMorphHeading_of_isNodeHeading h₂]
      simp [kindWith, h]
  obtain ⟨c, hc, hhead⟩ : ∃ c, (c = '#' ∨ c = Char.ofNat 96) ∧
      (trimLeft line.toList).head? = some c := by
    rcases h with h | h
    · exact ⟨_, .inr rfl, head?_of_isFence h⟩
    · obtain ⟨rest, hrest, -⟩ := exists_after_hash h
      exact ⟨_, .inl rfl, head?_of_after? hrest⟩
  -- such a line begins neither an item nor a currency line
  have hothers : ∀ {l : String}, (trimLeft l.toList).head? = some c →
      isMindmapItem l = false ∧ (currencyOfLine? l).isSome = false := by
    intro l hl
    constructor
    · by_contra hitem
      have := head?_of_item (eq_true_of_ne_false hitem)
      rcases hc with rfl | rfl <;> simp [hl] at this
    · by_contra hcurrency
      have := head?_of_currency (eq_true_of_ne_false hcurrency)
      rcases hc with rfl | rfl <;> simp [hl] at this
  obtain ⟨-, hhead₂⟩ := head?_trimLeft_append_tail htail (.inl hhead)
  obtain ⟨hitem, hcurrency⟩ := hothers hhead
  obtain ⟨hitem₂, hcurrency₂⟩ := hothers hhead₂
  simp [ChangedBy, hkind, hitem, hitem₂, hcurrency, hcurrency₂]

end NoteGraph.Language
