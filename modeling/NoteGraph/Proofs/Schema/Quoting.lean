import NoteGraph.Proofs.Schema.Fields

/-!
# Quoted fields

Quotes keep the commas of a field and are gone when it is read, so what is written between quotes
comes back as it was: any trimmed text that is not empty, as long as one of the two kinds of quotes
is left to stand around it. A text without quotes and commas can do without.
-/

namespace NoteGraph.Schema

open Text

/-- The mark that quotes a field: a double quote unless the field has one. -/
def fieldMark (cs : List Char) : Char := if '"' ∈ cs then '\'' else '"'

/-- A field between quotes. -/
def quoteField (field : String) : String :=
  String.ofList (fieldMark field.toList :: (field.toList ++ [fieldMark field.toList]))

/-- Whether a text can be a field: it is trimmed and not empty, and it lacks one kind of quotes. -/
structure IsField (field : String) : Prop where
  trim_eq : trim field.toList = field.toList
  ne_empty : field ≠ ""
  one_kind : ¬('\'' ∈ field.toList ∧ '"' ∈ field.toList)

instance (field : String) : Decidable (IsField field) :=
  decidable_of_iff (trim field.toList = field.toList ∧ field ≠ "" ∧
      ¬('\'' ∈ field.toList ∧ '"' ∈ field.toList))
    ⟨fun ⟨htrim, hne, hone⟩ => ⟨htrim, hne, hone⟩, fun h => ⟨h.trim_eq, h.ne_empty, h.one_kind⟩⟩

/-- The ways to write a field. -/
inductive Writes : String → String → Prop where
  /-- Between quotes. -/
  | quoted (field : String) : Writes (quoteField field) field
  /-- As it is, if it has no quotes and commas. -/
  | bare {field : String} : IsBare field.toList → Writes field field

theorem fieldMark_eq (cs : List Char) : fieldMark cs = '\'' ∨ fieldMark cs = '"' := by
  unfold fieldMark
  split_ifs
  · exact .inl rfl
  · exact .inr rfl

/-- The mark around a field does not stand in it. -/
theorem IsField.fieldMark_notMem {field : String} (h : IsField field) :
    fieldMark field.toList ∉ field.toList := by
  unfold fieldMark
  split_ifs with hdouble
  · exact fun hsingle => h.one_kind ⟨hsingle, hdouble⟩
  · exact hdouble

theorem IsField.trimmed_eq {field : String} (h : IsField field) : trimmed field.toList = field := by
  rw [trimmed, h.trim_eq, String.ofList_toList]

theorem IsField.isEmpty_eq {field : String} (h : IsField field) : field.isEmpty = false := by
  rw [← Bool.not_eq_true, String.isEmpty_iff]
  exact h.ne_empty

/-- A field is spelled by each way to write it. -/
theorem Writes.spells {written field : String} (h : Writes written field) (hfield : IsField field) :
    Spells written.toList field.toList := by
  cases h with
  | quoted =>
    rw [quoteField, String.toList_ofList]
    exact spells_quoted (fieldMark_eq _) hfield.fieldMark_notMem
  | bare hbare => exact spells_bare hbare

theorem forall₂_spells {written fields : List String} (h : List.Forall₂ Writes written fields)
    (hfields : ∀ field ∈ fields, IsField field) :
    List.Forall₂ Spells (written.map String.toList) (fields.map String.toList) := by
  induction h with
  | nil => exact .nil
  | cons hfirst _ ih =>
    obtain ⟨hfield, hfields⟩ := List.forall_mem_cons.mp hfields
    exact .cons (hfirst.spells hfield) (ih hfields)

/-- **Fields come back** from a line on which each is written, between quotes or bare, with a comma
and a space behind each but the last. -/
theorem splitFields_written {written fields : List String}
    (hfields : ∀ field ∈ fields, IsField field) (h : List.Forall₂ Writes written fields) :
    splitFields (", ".intercalate written) = fields := by
  cases written with
  | nil =>
    cases h
    rfl
  | cons first more =>
    have hread := splitFields_intercalate (forall₂_spells h hfields) (by simp)
    have htext : String.ofList ([',', ' '].intercalate ((first :: more).map String.toList)) =
        ", ".intercalate (first :: more) := by
      rw [← String.toList_inj, String.toList_ofList, String.toList_intercalate]
      rfl
    have hfield : (fields.map String.toList).map trimmed = fields := by
      have htrimmed : ∀ field ∈ fields, (trimmed ∘ String.toList) field = id field :=
        fun field hmem => (hfields field hmem).trimmed_eq
      rw [List.map_map, List.map_congr_left htrimmed, List.map_id]
    rw [← htext, hread, hfield, List.filter_eq_self]
    intro field hmem
    rw [(hfields field hmem).isEmpty_eq, Bool.not_false]

/-- A comma between quotes, quotes of either kind in a field, and a bare field. -/
theorem splitFields_written_mixed :
    ", ".intercalate [quoteField "hot, dense", quoteField "it's", quoteField "the \"core\"",
      "a | b"] = "\"hot, dense\", \"it's\", 'the \"core\"', a | b" ∧
    (∀ field ∈ ["hot, dense", "it's", "the \"core\"", "a | b"], IsField field) ∧
    List.Forall₂ Writes [quoteField "hot, dense", quoteField "it's", quoteField "the \"core\"",
      "a | b"] ["hot, dense", "it's", "the \"core\"", "a | b"] ∧
    splitFields (", ".intercalate [quoteField "hot, dense", quoteField "it's",
      quoteField "the \"core\"", "a | b"]) = ["hot, dense", "it's", "the \"core\"", "a | b"] := by
  have hfields : ∀ field ∈ ["hot, dense", "it's", "the \"core\"", "a | b"], IsField field := by
    decide
  have hwritten : List.Forall₂ Writes [quoteField "hot, dense", quoteField "it's",
      quoteField "the \"core\"", "a | b"] ["hot, dense", "it's", "the \"core\"", "a | b"] :=
    .cons (.quoted _) (.cons (.quoted _) (.cons (.quoted _) (.cons (.bare (by decide)) .nil)))
  exact ⟨by decide +kernel, hfields, hwritten, splitFields_written hfields hwritten⟩

end NoteGraph.Schema
