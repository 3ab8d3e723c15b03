import NoteGraph.Proofs.Keyed
import NoteGraph.Schema.Block

/-!
# Merged catalogs

Where types of one name are declared more than once, a merged list has the name at the place where
it first came up, with the type that was declared last. Only one list is like this
(`MergesTo.unique`), and it does not matter whether some of what is merged has been merged before
(`MergesTo.trans`). So a catalog may be merged with some blocks one after the other or with all
that they come to together (`mergedWith_mergeBlocks`).
-/

namespace NoteGraph.Schema

/-! ### Entries by name -/

/-- What some declared entries come to: each name once, at the place where it is declared first,
with the entry that is declared last. -/
structure MergesTo {α : Type} (name : α → String) (declared merged : List α) : Prop where
  map_name : merged.map name = (declared.map name).eraseDups
  last : ∀ entry ∈ merged, declared.reverse.find? (name · == name entry) = some entry

section ByName

variable {α : Type} {name : α → String}

theorem any_name_eq_true_iff {entries : List α} {key : String} :
    entries.any (name · == key) = true ↔ key ∈ entries.map name := by
  simp [List.any_eq_true]

theorem map_name_putByName (entries : List α) (entry : α) :
    (putByName name entries entry).map name =
      if name entry ∈ entries.map name then entries.map name
      else entries.map name ++ [name entry] := by
  rw [putByName]
  by_cases h : name entry ∈ entries.map name
  · rw [if_pos (any_name_eq_true_iff.mpr h), if_pos h, List.map_map]
    refine List.map_congr_left fun other _ => ?_
    by_cases hother : name other = name entry <;> simp [hother]
  · rw [if_neg (mt any_name_eq_true_iff.mp h), if_neg h, List.map_append, List.map_singleton]

/-- Besides the entry that is put in there are the entries of other names. -/
theorem mem_putByName {entries : List α} {entry other : α}
    (h : other ∈ putByName name entries entry) :
    other = entry ∨ other ∈ entries ∧ name other ≠ name entry := by
  rw [putByName] at h
  split_ifs at h with hany
  · obtain ⟨old, hold, rfl⟩ := List.mem_map.mp h
    by_cases hname : name old = name entry
    · exact .inl (if_pos (beq_iff_eq.mpr hname))
    · rw [if_neg (by simpa using hname)]
      exact .inr ⟨hold, hname⟩
  · rcases List.mem_append.mp h with hold | hnew
    · refine .inr ⟨hold, fun hname => hany (any_name_eq_true_iff.mpr ?_)⟩
      exact hname ▸ List.mem_map_of_mem hold
    · exact .inl (List.mem_singleton.mp hnew)

namespace MergesTo

variable {declared merged : List α}

theorem nil : MergesTo name [] [] := ⟨rfl, nofun⟩

/-- One more entry takes the place of its name, or comes last if the name is new. -/
theorem put (h : MergesTo name declared merged) (entry : α) :
    MergesTo name (declared ++ [entry]) (putByName name merged entry) := by
  constructor
  · have hmem : name entry ∈ merged.map name ↔ name entry ∈ declared.map name := by
      rw [h.map_name, List.mem_eraseDups]
    rw [map_name_putByName, List.map_append, List.map_singleton, eraseDups_concat, ← h.map_name]
    simp only [hmem]
  · intro other hother
    rw [List.reverse_concat, List.find?_cons]
    rcases mem_putByName hother with rfl | ⟨hold, hname⟩
    · rw [beq_self_eq_true]
    · rw [beq_eq_false_iff_ne.mpr (Ne.symm hname)]
      exact h.last other hold

/-- The last entry of a name is the same before and after merging. -/
theorem find?_eq (h : MergesTo name declared merged) (key : String) :
    merged.reverse.find? (name · == key) = declared.reverse.find? (name · == key) := by
  cases hfind : merged.reverse.find? (name · == key) with
  | some entry =>
    have hkey := List.find?_some hfind
    obtain rfl := beq_iff_eq.mp hkey
    exact (h.last entry (List.mem_reverse.mp (List.mem_of_find?_eq_some hfind))).symm
  | none =>
    have hnot : key ∉ declared.map name := by
      rw [← List.mem_eraseDups, ← h.map_name]
      intro hmem
      obtain ⟨entry, hentry, rfl⟩ := List.mem_map.mp hmem
      exact List.find?_eq_none.mp hfind entry (List.mem_reverse.mpr hentry) (beq_self_eq_true _)
    refine (List.find?_eq_none.mpr fun entry hentry hkey => hnot ?_).symm
    exact List.mem_map.mpr ⟨entry, List.mem_reverse.mp hentry, beq_iff_eq.mp hkey⟩

/-- Some of what is merged may have been merged before. -/
theorem trans (h : MergesTo name declared merged) (front back : List α) {result : List α}
    (hresult : MergesTo name (front ++ merged ++ back) result) :
    MergesTo name (front ++ declared ++ back) result := by
  constructor
  · have hfront : (front.map name ++ merged.map name).eraseDups =
        (front.map name ++ declared.map name).eraseDups := by
      rw [h.map_name, eraseDups_append_eraseDups]
    rw [hresult.map_name, List.map_append, List.map_append, List.map_append, List.map_append]
    exact eraseDups_append_congr hfront _
  · intro entry hentry
    rw [← hresult.last entry hentry]
    simp only [List.reverse_append, List.find?_append, h.find?_eq]

/-- Only one list is what some entries come to. -/
theorem unique {other : List α} (h : MergesTo name declared merged)
    (h' : MergesTo name declared other) : merged = other := by
  have hentries : ∀ {entries : List α}, MergesTo name declared entries →
      entries.map some = (declared.map name).eraseDups.map
        fun key => declared.reverse.find? (name · == key) := by
    intro entries hentries
    rw [← hentries.map_name, List.map_map]
    exact List.map_congr_left fun entry hentry => (hentries.last entry hentry).symm
  exact List.map_injective_iff.mpr (Option.some_injective α) ((hentries h).trans (hentries h').symm)

theorem nodup (h : MergesTo name declared merged) : (merged.map name).Nodup :=
  h.map_name ▸ nodup_eraseDups _

end MergesTo

theorem mergesTo_mergeByName (first second : List α) :
    MergesTo name (first ++ second) (mergeByName name first second) := by
  rw [mergeByName]
  induction first ++ second using List.reverseRecOn with
  | nil => exact MergesTo.nil
  | append_singleton declared entry ih =>
    rw [List.foldl_concat]
    exact ih.put entry

end ByName

/-! ### Catalogs -/

/-- The kinds of types. -/
inductive Kind where
  | node
  | relation
  | attributes
  | transition
  | function

namespace Kind

/-- The types of a kind. -/
def Member : Kind → Type
  | node => NodeType
  | relation => RelationType
  | attributes => AttributeType
  | transition => TransitionType
  | function => FunctionType

/-- The name of a type. -/
def name : (kind : Kind) → kind.Member → String
  | node => NodeType.name
  | relation => RelationType.name
  | attributes => AttributeType.name
  | transition => TransitionType.name
  | function => FunctionType.name

/-- The types of a kind in a catalog. -/
def list : (kind : Kind) → Catalog → List kind.Member
  | node => Catalog.nodeTypes
  | relation => Catalog.relationTypes
  | attributes => Catalog.attributeTypes
  | transition => Catalog.transitionTypes
  | function => Catalog.functionTypes

theorem list_empty (kind : Kind) : kind.list {} = [] := by
  cases kind <;> rfl

theorem list_mergedWith (kind : Kind) (c d : Catalog) :
    kind.list (c.mergedWith d) = mergeByName kind.name (kind.list c) (kind.list d) := by
  cases kind <;> rfl

end Kind

theorem Catalog.ext_list {c d : Catalog} (h : ∀ kind : Kind, kind.list c = kind.list d) :
    c = d := by
  cases c
  cases d
  rw [Catalog.mk.injEq]
  exact ⟨h .node, h .relation, h .attributes, h .transition, h .function⟩

/-- What is declared in a catalog and, after it, in some blocks. -/
def Kind.declared (kind : Kind) (d : Catalog) (blocks : List BlockResult) : List kind.Member :=
  kind.list d ++ blocks.flatMap fun block => kind.list block.catalog

theorem mergesTo_mergedWith (kind : Kind) (c d : Catalog) :
    MergesTo kind.name (kind.list c ++ kind.list d) (kind.list (c.mergedWith d)) := by
  rw [kind.list_mergedWith]
  exact mergesTo_mergeByName _ _

/-- Merging blocks into a catalog one after the other merges all that they declare. -/
theorem mergesTo_foldl (kind : Kind) (more : List BlockResult) :
    ∀ (d : Catalog) (first : BlockResult),
      MergesTo kind.name (kind.declared d (first :: more))
        (kind.list ((first :: more).foldl (fun c block => c.mergedWith block.catalog) d)) := by
  induction more with
  | nil =>
    intro d first
    simpa [Kind.declared] using mergesTo_mergedWith kind d first.catalog
  | cons second more ih =>
    intro d first
    have hrest := ih (d.mergedWith first.catalog) second
    have hall := (mergesTo_mergedWith kind d first.catalog).trans [] _ hrest
    simpa [Kind.declared] using hall

theorem catalog_mergeBlocks (blocks : List BlockResult) :
    (mergeBlocks blocks).catalog =
      blocks.foldl (fun c block => c.mergedWith block.catalog) {} :=
  (List.foldl_hom BlockResult.catalog fun _ _ => rfl).symm

/-- **Merging catalogs**: a catalog is merged with blocks one after the other as with all of them
merged before. For each kind the names are those of the catalog and the blocks, in the order in
which they first come up and each once, and a name has the type that is declared last. -/
theorem mergedWith_mergeBlocks (d : Catalog) (first : BlockResult) (more : List BlockResult) :
    let blocks := first :: more
    let merged := d.mergedWith (mergeBlocks blocks).catalog
    merged = blocks.foldl (fun c block => c.mergedWith block.catalog) d ∧
      ∀ kind : Kind, ((kind.list merged).map kind.name).Nodup ∧
        MergesTo kind.name (kind.declared d blocks) (kind.list merged) := by
  intro blocks merged
  have hmerged : ∀ kind : Kind, MergesTo kind.name (kind.declared d blocks) (kind.list merged) := by
    intro kind
    have hblocks := mergesTo_foldl kind more {} first
    rw [Kind.declared, kind.list_empty, List.nil_append, ← catalog_mergeBlocks] at hblocks
    have hall := mergesTo_mergedWith kind d (mergeBlocks blocks).catalog
    have htrans := hblocks.trans (kind.list d) [] (by rwa [List.append_nil])
    rwa [List.append_nil] at htrans
  refine ⟨Catalog.ext_list fun kind => ?_, fun kind => ⟨(hmerged kind).nodup, hmerged kind⟩⟩
  exact (hmerged kind).unique (mergesTo_foldl kind more d first)

example : Catalog.mergedWith { nodeTypes := [⟨"a", "1", []⟩, ⟨"b", "1", []⟩] }
    { nodeTypes := [⟨"c", "2", []⟩, ⟨"a", "2", []⟩, ⟨"c", "3", []⟩] } =
      { nodeTypes := [⟨"a", "2", []⟩, ⟨"b", "1", []⟩, ⟨"c", "3", []⟩] } := by
  decide

end NoteGraph.Schema
