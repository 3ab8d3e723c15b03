import NoteGraph.Proofs.Keyed
import NoteGraph.Proofs.Schema.Fields

/-!
# Lines that declare types

A type of nodes, relations or transitions is written on a line: the word for its kind, its name,
its description between quotes, and an option for each of its lists of names. Quotes keep commas
in a description, but they are gone when the fields are told apart, and a field with a colon is an
option. So such a line is read as the type that it was written for exactly when the description
has no colon; with one the description is lost.
-/

namespace NoteGraph.Schema

open Text

/-! ### What is written -/

/-- A name as a field or an item of a list option. -/
structure FieldName where
  text : List Char
  trim_text : trim text = text
  ne_nil : text ≠ []
  plain : ∀ c ∈ text, c ∉ ['\'', '"', ',', '|', ':', '\n']

namespace FieldName

/-- The string of a name. -/
def toString (n : FieldName) : String := String.ofList n.text

variable (n : FieldName)

theorem notMem_text {c : Char} (hc : c ∈ ['\'', '"', ',', '|', ':', '\n']) : c ∉ n.text :=
  fun hmem => n.plain c hmem hc

theorem isBare_text : IsBare n.text := fun c hc => by
  have hplain := n.plain c hc
  simp only [List.mem_cons, not_or] at hplain
  exact ⟨hplain.1, hplain.2.1, hplain.2.2.1⟩

end FieldName

/-- The lists of names of a type, by its kind. -/
inductive NameLists where
  | node (parents : List FieldName)
  | relation (domain range aliases : List FieldName)
  | transition (inputs outputs : List FieldName)

namespace NameLists

/-- The word that starts the line of a type. -/
def word : NameLists → String
  | node .. => "nodeType"
  | relation .. => "relationType"
  | transition .. => "transitionType"

/-- The options that give the lists. -/
def options : NameLists → List (String × List FieldName)
  | node parents => [("parent", parents)]
  | relation domain range aliases => [("domain", domain), ("range", range), ("aliases", aliases)]
  | transition inputs outputs => [("inputs", inputs), ("outputs", outputs)]

/-- The type of a name and a description with these lists. -/
def entry (name description : String) : NameLists → Entry
  | node parents =>
    .node { name, description, parentTypes := parents.map FieldName.toString }
  | relation domain range aliases =>
    .relation {
      name
      description
      domain := domain.map FieldName.toString
      range := range.map FieldName.toString
      aliases := aliases.map FieldName.toString }
  | transition inputs outputs =>
    .transition {
      name
      description
      inputs := inputs.map FieldName.toString
      outputs := outputs.map FieldName.toString }

/-- What the fields of a line of this kind declare. -/
def read : NameLists → List String → Except BlockFault Entry
  | node .. => nodeEntry
  | relation .. => relationEntry
  | transition .. => transitionEntry

end NameLists

/-- A type as a line declares it. -/
structure TypeLine where
  name : FieldName
  description : List Char
  lists : NameLists
  trim_description : trim description = description
  quote_notMem_description : '"' ∉ description
  isLine_description : IsLine description

/-- The items of a list option with a bar between each two of them. -/
def itemsText (items : List FieldName) : List Char := ['|'].intercalate (items.map (·.text))

/-- A list option as it is written. -/
def optionText (key : String) (items : List FieldName) : List Char :=
  key.toList ++ ':' :: ' ' :: itemsText items

namespace TypeLine

/-- The type that is declared. -/
def entry (d : TypeLine) : Entry := d.lists.entry d.name.toString (String.ofList d.description)

/-- The options of a line; those of empty lists may be left out. -/
def options (d : TypeLine) (keepEmpty : Bool) : List (String × List FieldName) :=
  d.lists.options.filter fun o => keepEmpty || !o.2.isEmpty

/-- The line that declares a type. -/
def text (d : TypeLine) (keepEmpty : Bool) : List Char :=
  d.lists.word.toList ++ ':' :: ' ' :: [',', ' '].intercalate
    (d.name.text :: ('"' :: (d.description ++ ['"'])) ::
      (d.options keepEmpty).map fun o => optionText o.1 o.2)

end TypeLine

/-! ### Words before a colon -/

section Word

variable {word : List Char}

theorem trim_word_append (hword : IsWord word) (rest : List Char) :
    trim (word ++ ':' :: rest) = word ++ ':' :: trimRight rest := by
  rw [trim, trimLeft, dropWhile_of_head?, trimRight_append_cons rfl]
  intro c hc
  rw [List.head?_append_of_ne_nil _ hword.1] at hc
  exact hword.2 c (List.mem_of_mem_head? hc)

theorem takeWhile_word_append (hcolon : ':' ∉ word) (rest : List Char) :
    (word ++ ':' :: rest).takeWhile (· != ':') = word := by
  have hall : word.all (· != ':') = true :=
    List.all_eq_true.mpr fun c hc => bne_iff_ne.mpr fun heq => hcolon (heq ▸ hc)
  exact (takeWhile_append_stop hall (by simp)).1

theorem drop_word_append (word rest : List Char) :
    (word ++ ':' :: rest).drop (word.length + 1) = rest := by
  rw [List.drop_append, List.drop_eq_nil_of_le (Nat.le_succ _), Nat.add_sub_cancel_left]
  rfl

end Word

/-! ### Options -/

/-- A key that is read as it is written. -/
structure IsKey (key : String) : Prop where
  isWord : IsWord key.toList
  isBare : IsBare key.toList
  colon_notMem : ':' ∉ key.toList
  isLine : '\n' ∉ key.toList
  lower_eq : lower key.toList = key.toList

theorem isKey_of_mem_options {lists : NameLists} {o : String × List FieldName}
    (h : o ∈ lists.options) : IsKey o.1 := by
  have hkeys : ∀ key ∈ ["parent", "domain", "range", "aliases", "inputs", "outputs"],
      IsKey key := by
    simp only [List.forall_mem_cons]
    refine ⟨?_, ?_, ?_, ?_, ?_, ?_, List.forall_mem_nil _⟩ <;>
      exact ⟨by decide, by decide, by decide, by decide, by decide⟩
  have hsubset : lists.options.map (·.1) ⊆
      ["parent", "domain", "range", "aliases", "inputs", "outputs"] := by
    cases lists <;> simp [NameLists.options]
  exact hkeys o.1 (hsubset (List.mem_map_of_mem h))

theorem nodup_keys (lists : NameLists) : (lists.options.map (·.1)).Nodup := by
  cases lists <;> simp [NameLists.options]

theorem trim_itemsText (items : List FieldName) : trim (itemsText items) = itemsText items :=
  trim_intercalate_of_trim _ (List.forall_mem_map.mpr fun n _ => ⟨n.ne_nil, n.trim_text⟩)

theorem mem_itemsText {items : List FieldName} {c : Char} (hc : c ∈ itemsText items) :
    c = '|' ∨ ∃ n ∈ items, c ∈ n.text := by
  rcases mem_intercalate hc with hc | ⟨w, hw, hc⟩
  · exact .inl (List.mem_singleton.mp hc)
  · obtain ⟨n, hn, rfl⟩ := List.mem_map.mp hw
    exact .inr ⟨n, hn, hc⟩

theorem isBare_itemsText (items : List FieldName) : IsBare (itemsText items) := by
  intro c hc
  rcases mem_itemsText hc with rfl | ⟨n, -, hc⟩
  · decide
  · exact n.isBare_text c hc

/-- The items of an option are told apart again. -/
theorem splitOn_itemsText (items : List FieldName) :
    (((itemsText items).splitOn '|').map trimmed).filter (!·.isEmpty) =
      items.map FieldName.toString := by
  cases items with
  | nil => decide
  | cons n items =>
    rw [itemsText, List.splitOn_intercalate '|'
      (List.forall_mem_map.mpr fun m _ => m.notMem_text (by decide)) (by simp), List.map_map,
      List.filter_eq_self.mpr]
    · exact List.map_congr_left fun m _ => congrArg String.ofList m.trim_text
    · refine List.forall_mem_map.mpr fun m _ => ?_
      simp [trimmed, m.trim_text, m.ne_nil]

section Option

variable {key : String} (hkey : IsKey key) (items : List FieldName)

include hkey

/-- An option is read as its key and its items. -/
theorem optionOf?_optionText : optionOf? (trimmed (optionText key items)) =
    some (key, String.ofList (itemsText items)) := by
  have hkeep := takeWhile_word_append hkey.colon_notMem (trimRight (' ' :: itemsText items))
  have hvalue : trimmed (trimRight (' ' :: itemsText items)) = String.ofList (itemsText items) := by
    rw [trimmed, trim_trimRight, trim_space_cons, trim_itemsText]
  have hlower : lower (trim key.toList) = key.toList := by
    rw [trim_of_forall hkey.isWord.2, hkey.lower_eq]
  rw [trimmed, optionText, trim_word_append hkey.isWord, optionOf?, String.toList_ofList]
  simp only [hkeep, hlower, drop_word_append, hvalue, String.ofList_toList]
  rw [if_neg]
  simp [hkey.isWord.1]

theorem colon_mem_optionText : ':' ∈ (trimmed (optionText key items)).toList := by
  rw [trimmed, optionText, trim_word_append hkey.isWord, String.toList_ofList]
  simp

theorem isBare_optionText : IsBare (optionText key items) := by
  have hmarks : IsBare [':', ' '] := by decide
  exact hkey.isBare.append (hmarks.append (isBare_itemsText items))

end Option

/-! ### Fields -/

namespace TypeLine

variable (d : TypeLine) (keepEmpty : Bool)

/-- The field of the description; an empty one is none. -/
def descriptionFields : List String :=
  if d.description = [] then [] else [String.ofList d.description]

/-- The fields of a line behind the name. -/
def fields : List String :=
  d.descriptionFields ++ (d.options keepEmpty).map fun o => trimmed (optionText o.1 o.2)

theorem isKey_of_mem {o : String × List FieldName} (h : o ∈ d.options keepEmpty) : IsKey o.1 :=
  isKey_of_mem_options (List.mem_filter.mp h).1

theorem spells_text : List.Forall₂ Spells
    (d.name.text :: ('"' :: (d.description ++ ['"'])) ::
      (d.options keepEmpty).map fun o => optionText o.1 o.2)
    (d.name.text :: d.description ::
      (d.options keepEmpty).map fun o => optionText o.1 o.2) := by
  refine .cons (spells_bare d.name.isBare_text)
    (.cons (spells_quoted (.inr rfl) d.quote_notMem_description) ?_)
  refine List.forall₂_same.mpr (List.forall_mem_map.mpr fun o ho => spells_bare ?_)
  exact isBare_optionText (d.isKey_of_mem keepEmpty ho) o.2

theorem splitFields_text : splitFields (String.ofList ([',', ' '].intercalate
    (d.name.text :: ('"' :: (d.description ++ ['"'])) ::
      (d.options keepEmpty).map fun o => optionText o.1 o.2))) =
        d.name.toString :: d.fields keepEmpty := by
  have hname : (!(trimmed d.name.text).isEmpty) = true := by
    simp [trimmed, d.name.trim_text, d.name.ne_nil]
  have hfilled : ∀ o ∈ d.options keepEmpty, (!(trimmed (optionText o.1 o.2)).isEmpty) = true := by
    intro o ho
    have hne := List.ne_nil_of_mem (colon_mem_optionText (d.isKey_of_mem keepEmpty ho) o.2)
    simpa using hne
  have hoptions : (((d.options keepEmpty).map fun o => optionText o.1 o.2).map trimmed).filter
      (!·.isEmpty) = (d.options keepEmpty).map fun o => trimmed (optionText o.1 o.2) := by
    rw [List.map_map]
    exact List.filter_eq_self.mpr (List.forall_mem_map.mpr hfilled)
  have hdescription : (!(trimmed d.description).isEmpty) = true ↔ d.description ≠ [] := by
    simp [trimmed, d.trim_description]
  rw [splitFields_intercalate (d.spells_text keepEmpty) (List.cons_ne_nil _ _), List.map_cons,
    List.map_cons, List.filter_cons, if_pos hname, List.filter_cons, hoptions, fields,
    descriptionFields, FieldName.toString, trimmed, d.name.trim_text]
  by_cases hempty : d.description = []
  · rw [if_neg fun hkept => hdescription.mp hkept hempty, if_pos hempty]
    rfl
  · rw [if_pos (hdescription.mpr hempty), if_neg hempty, trimmed, d.trim_description]
    rfl

theorem descriptionField_fields : descriptionField (d.fields keepEmpty) =
    if ':' ∈ d.description then "" else String.ofList d.description := by
  have hoptions : ((d.options keepEmpty).map fun o => trimmed (optionText o.1 o.2)).find?
      (fun part => !part.toList.contains ':') = none := by
    rw [List.find?_eq_none]
    refine List.forall_mem_map.mpr fun o ho => ?_
    have hcolon := colon_mem_optionText (d.isKey_of_mem keepEmpty ho) o.2
    simpa using hcolon
  rw [descriptionField, fields, List.find?_append, hoptions, Option.or_none, descriptionFields]
  by_cases hempty : d.description = []
  · simp [hempty]
  · by_cases hcolon : ':' ∈ d.description <;> simp [hempty, hcolon]

/-- The options of a line, if its description is not taken for one. -/
theorem filterMap_optionOf?_fields (h : ':' ∉ d.description) :
    (d.fields keepEmpty).filterMap optionOf? =
      (d.options keepEmpty).map fun o => (o.1, String.ofList (itemsText o.2)) := by
  have hnone : optionOf? (String.ofList d.description) = none := by
    have hkeep : d.description.takeWhile (· != ':') = d.description :=
      List.takeWhile_eq_self_iff.mpr fun c hc => bne_iff_ne.mpr fun heq => h (heq ▸ hc)
    simp [optionOf?, hkeep]
  have hdescription : d.descriptionFields.filterMap optionOf? = [] := by
    rw [descriptionFields]
    split_ifs
    · rfl
    · rw [List.filterMap_cons, hnone]
      rfl
  rw [fields, List.filterMap_append, hdescription, List.nil_append, List.filterMap_map,
    ← List.filterMap_eq_map]
  refine List.filterMap_congr fun o ho => ?_
  rw [Function.comp_apply, optionOf?_optionText (d.isKey_of_mem keepEmpty ho)]
  rfl

theorem map_fst_options_sublist :
    List.Sublist ((d.options keepEmpty).map (·.1)) (d.lists.options.map (·.1)) :=
  List.filter_sublist.map _

theorem option?_eq_none (h : ':' ∉ d.description) {key : String}
    (hkey : key ∉ (d.options keepEmpty).map (·.1)) : option? (d.fields keepEmpty) key = none := by
  rw [option?, d.filterMap_optionOf?_fields keepEmpty h]
  refine Keyed.lookup_eq_none_of_notMem ?_
  simpa using hkey

theorem option?_eq_some (h : ':' ∉ d.description) {o : String × List FieldName}
    (ho : o ∈ d.options keepEmpty) :
    option? (d.fields keepEmpty) o.1 = some (String.ofList (itemsText o.2)) := by
  rw [option?, d.filterMap_optionOf?_fields keepEmpty h]
  refine Keyed.lookup_eq_some_of_mem ?_ (List.mem_reverse.mpr (List.mem_map_of_mem ho))
  rw [List.map_reverse, List.nodup_reverse, List.map_map]
  exact (nodup_keys d.lists).sublist (d.map_fst_options_sublist keepEmpty)

/-- Every list is read from its option, or is empty if that is left out. -/
theorem listOption_fields (h : ':' ∉ d.description) {o : String × List FieldName}
    (ho : o ∈ d.lists.options) :
    listOption (d.fields keepEmpty) o.1 = o.2.map FieldName.toString := by
  by_cases hkept : o ∈ d.options keepEmpty
  · rw [listOption, d.option?_eq_some keepEmpty h hkept]
    simpa using splitOn_itemsText o.2
  · have hempty : o.2 = [] := by
      by_contra hne
      exact hkept (List.mem_filter.mpr ⟨ho, by simp [hne]⟩)
    have hkey : o.1 ∉ (d.options keepEmpty).map (·.1) := by
      intro hmem
      obtain ⟨o', ho', hfst⟩ := List.mem_map.mp hmem
      -- the keys of a line are told apart
      have hsame := List.inj_on_of_nodup_map (nodup_keys d.lists) (List.mem_filter.mp ho').1 ho hfst
      exact hkept (hsame ▸ ho')
    rw [listOption, d.option?_eq_none keepEmpty h hkey, hempty]
    rfl

theorem descriptionField_fields_eq_iff :
    descriptionField (d.fields keepEmpty) = String.ofList d.description ↔
      ':' ∉ d.description := by
  rw [descriptionField_fields]
  by_cases hcolon : ':' ∈ d.description
  · have hne : "" ≠ String.ofList d.description := by
      simpa using (List.ne_nil_of_mem hcolon).symm
    simp [hcolon, hne]
  · simp [hcolon]

/-- The fields of a line always declare a type of its kind, and the one that it was written for
exactly if its description has no colon. -/
theorem exists_read_fields : ∃ e, d.lists.read (d.name.toString :: d.fields keepEmpty) = .ok e ∧
    (e = d.entry ↔ ':' ∉ d.description) := by
  have hdescription := d.descriptionField_fields_eq_iff keepEmpty
  have hlist := fun h => @listOption_fields d keepEmpty h
  have hkeys := d.map_fst_options_sublist keepEmpty
  have hnone := fun h key => @option?_eq_none d keepEmpty h key
  obtain ⟨name, description, lists, _, _, _⟩ := d
  cases lists with
  | node parents =>
    refine ⟨_, rfl, fun h => hdescription.mp ?_, fun h => ?_⟩
    · exact congrArg NodeType.description (Entry.node.inj h)
    · have hparents := hlist h (o := ("parent", parents)) (by simp [NameLists.options])
      simp only [entry, NameLists.entry, hdescription.mpr h, hparents]
  | relation domain range aliases =>
    refine ⟨_, rfl, fun h => hdescription.mp ?_, fun h => ?_⟩
    · exact congrArg RelationType.description (Entry.relation.inj h)
    · have hdomain := hlist h (o := ("domain", domain)) (by simp [NameLists.options])
      have hrange := hlist h (o := ("range", range)) (by simp [NameLists.options])
      have haliases := hlist h (o := ("aliases", aliases)) (by simp [NameLists.options])
      -- no list has the key of a flag or of the inverse
      have habsent : ∀ key ∈ ["symmetric", "transitive", "inverse"],
          key ∉ ["domain", "range", "aliases"] := by decide
      have hunset := fun key hkey => hnone h key fun hmem => habsent key hkey (hkeys.subset hmem)
      simp only [entry, NameLists.entry, hdescription.mpr h, hdomain, hrange, haliases,
        flagOption?, hunset "symmetric" (by simp), hunset "transitive" (by simp),
        hunset "inverse" (by simp), Option.map_none]
  | transition inputs outputs =>
    refine ⟨_, rfl, fun h => hdescription.mp ?_, fun h => ?_⟩
    · exact congrArg TransitionType.description (Entry.transition.inj h)
    · have hinputs := hlist h (o := ("inputs", inputs)) (by simp [NameLists.options])
      have houtputs := hlist h (o := ("outputs", outputs)) (by simp [NameLists.options])
      simp only [entry, NameLists.entry, hdescription.mpr h, hinputs, houtputs]

end TypeLine

/-! ### Lines and blocks -/

theorem word_plain (lists : NameLists) : IsWord lists.word.toList ∧ ':' ∉ lists.word.toList ∧
    lists.word.toList.head? ≠ some '#' ∧ IsLine lists.word.toList := by
  unfold IsLine
  cases lists <;> dsimp only [NameLists.word] <;> decide

theorem lookup_entryReaders (lists : NameLists) :
    entryReaders.lookup (String.ofList (lower lists.word.toList)) = some lists.read := by
  have hnode : String.ofList (lower "nodeType".toList) = "nodetype" := by decide
  have hrelation : String.ofList (lower "relationType".toList) = "relationtype" := by decide
  have htransition : String.ofList (lower "transitionType".toList) = "transitiontype" := by decide
  cases lists <;> simp [NameLists.word, NameLists.read, entryReaders, List.lookup_cons, hnode,
    hrelation, htransition, - String.reduceToList]

/-- A line with a known word declares what its fields declare, read behind the colon. -/
theorem declares_line (lists : NameLists) (rest : List Char) :
    entryOfLine? (lists.word.toList ++ ':' :: rest) =
      some (lists.read (splitFields (String.ofList rest))) := by
  have hread := lookup_entryReaders lists
  obtain ⟨hword, hcolon, hcomment, -⟩ := word_plain lists
  generalize lists.word.toList = word at *
  have hnotComment : (word ++ ':' :: trimRight rest).head? ≠ some '#' := by
    rwa [List.head?_append_of_ne_nil _ hword.1]
  simp only [entryOfLine?, trim_word_append hword, takeWhile_word_append hcolon, drop_word_append,
    trim_of_forall hword.2, hread]
  rw [if_neg (by simpa using hnotComment), if_neg (by simp), trimmed, trim_trimRight, ← trimmed,
    splitFields_trimmed]

theorem readBlock_of_isLine {line : List Char} (hline : IsLine line) {e : Entry}
    (hread : entryOfLine? line = some (.ok e)) :
    readBlock (String.ofList line) = ⟨({} : Catalog).add e, []⟩ := by
  have hlines : lines line = [line] := List.splitOn_eq_singleton hline
  rw [readBlock, String.toList_ofList, hlines]
  simp only [List.zipIdx_singleton, List.foldl_cons, List.foldl_nil, BlockResult.addLine, hread]

theorem Catalog.add_empty_injective : Function.Injective ({} : Catalog).add := by
  intro e e' h
  cases e <;> cases e' <;> simp_all [Catalog.add]

namespace TypeLine

variable (d : TypeLine) (keepEmpty : Bool)

theorem isLine_text : IsLine (d.text keepEmpty) := by
  have hoption : ∀ o ∈ d.options keepEmpty, IsLine (optionText o.1 o.2) := by
    intro o ho hc
    have hitems : '\n' ∈ itemsText o.2 := by
      simpa [optionText, (d.isKey_of_mem keepEmpty ho).isLine] using hc
    obtain hbar | ⟨n, -, hc⟩ := mem_itemsText hitems
    · exact absurd hbar (by decide)
    · exact n.notMem_text (by decide) hc
  have hwritten : ∀ w ∈ d.name.text :: ('"' :: (d.description ++ ['"'])) ::
      (d.options keepEmpty).map fun o => optionText o.1 o.2, IsLine w := by
    refine List.forall_mem_cons.mpr ⟨d.name.notMem_text (by decide),
      List.forall_mem_cons.mpr ⟨?_, List.forall_mem_map.mpr hoption⟩⟩
    have hdescription : '\n' ∉ d.description := d.isLine_description
    simpa [IsLine] using hdescription
  intro hc
  have hword : '\n' ∉ d.lists.word.toList := (word_plain d.lists).2.2.2
  have hjoined := (List.mem_append.mp hc).resolve_left hword
  simp only [List.mem_cons, Char.reduceEq, false_or] at hjoined
  rcases mem_intercalate hjoined with hc | ⟨w, hw, hc⟩
  · exact absurd hc (by decide)
  · exact hwritten w hw hc

theorem declares_text : entryOfLine? (d.text keepEmpty) =
    some (d.lists.read (d.name.toString :: d.fields keepEmpty)) := by
  rw [text, declares_line, ← d.splitFields_text keepEmpty, ← splitFields_trimmed, trimmed,
    trim_space_cons, ← trimmed, splitFields_trimmed]

/-- The line of a type declares one type and has no fault, and the type is the one that the line
was written for exactly if the description has no colon. Quotes keep commas and bars in a
description, but not a colon. -/
theorem readBlock_text_iff :
    (readBlock (String.ofList (d.text keepEmpty)) = ⟨({} : Catalog).add d.entry, []⟩ ↔
      ':' ∉ d.description) ∧
    ∃ e, readBlock (String.ofList (d.text keepEmpty)) = ⟨({} : Catalog).add e, []⟩ := by
  obtain ⟨e, hread, hsame⟩ := d.exists_read_fields keepEmpty
  have hblock : readBlock (String.ofList (d.text keepEmpty)) = ⟨({} : Catalog).add e, []⟩ :=
    readBlock_of_isLine (d.isLine_text keepEmpty) (by rw [d.declares_text keepEmpty, hread])
  refine ⟨?_, e, hblock⟩
  rw [hblock, ← hsame]
  exact ⟨fun h => Catalog.add_empty_injective (BlockResult.mk.inj h).1, fun h => by rw [h]⟩

/-- Quotes keep the commas and the bars of a description. -/
example : readBlock "nodeType: Star, \"hot, bright | far\", parent: Object|Sky" =
    ⟨{ nodeTypes := [{
        name := "Star", description := "hot, bright | far", parentTypes := ["Object", "Sky"] }] },
      []⟩ := by
  decide +kernel

/-- The line `nodeType: Star, "Note: hot", parent: Object`. -/
def star : TypeLine where
  name := ⟨"Star".toList, by decide, by decide, by simp⟩
  description := "Note: hot".toList
  lists := .node [⟨"Object".toList, by decide, by decide, by simp⟩]
  trim_description := by decide
  quote_notMem_description := by decide
  isLine_description := by
    unfold IsLine
    decide

/-- The description of this line is taken for an option and is lost. -/
theorem readBlock_star :
    readBlock "nodeType: Star, \"Note: hot\", parent: Object" =
      ⟨{ nodeTypes := [{ name := "Star", parentTypes := ["Object"] }] }, []⟩ ∧
    String.ofList (star.text true) = "nodeType: Star, \"Note: hot\", parent: Object" ∧
    readBlock (String.ofList (star.text true)) ≠ ⟨({} : Catalog).add star.entry, []⟩ := by
  decide +kernel

end TypeLine

end NoteGraph.Schema
