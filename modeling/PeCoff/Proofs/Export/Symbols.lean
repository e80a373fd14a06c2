import Mathlib
import PeCoff.Proofs.Export.Tables

/-!
# How often an ordinal occurs

The symbols of an export directory are those of the name table, then one for each exported index
without a name, sorted by ordinal. The main statements are `ofDirectory_eq`, which gives the symbols
of a directory whose tables can be read, and `countP_unordered`, which counts the symbols of an
ordinal: as many as its index has names, and one if it is exported without a name.
-/

namespace PeCoff.Export

namespace Tables

/-- The index is exported, and no entry of the name table belongs to it. -/
def Unnamed (tables : Tables) (index : Nat) : Prop :=
  tables.Exports index ∧ tables.nameCount index = 0

instance (tables : Tables) (index : Nat) : Decidable (tables.Unnamed index) :=
  inferInstanceAs (Decidable (_ ∧ _))

/-- The exported indices without a name, in their order. -/
def unnamed (tables : Tables) : List Nat :=
  (List.range (tables.functions.getD []).length).filter tables.Unnamed

/-- An index has no name exactly when its mark is not set. -/
lemma nameCount_eq_zero_iff (tables : Tables) (index : Nat) :
    tables.nameCount index = 0 ↔ tables.pairs.any (fun p => p.1 = index) = false := by
  simp [nameCount, List.countP_eq_zero]

/-- Each exported index without a name occurs once among them. -/
lemma count_unnamed (tables : Tables) (index : Nat) :
    tables.unnamed.count index = if tables.Unnamed index then 1 else 0 := by
  have hnodup : tables.unnamed.Nodup := List.nodup_range.filter _
  split
  · rename_i h
    apply List.count_eq_one_of_mem hnodup
    obtain ⟨addresses, hf⟩ | hf := Option.eq_none_or_eq_some tables.functions |>.symm
    · have hlt := h.1.lt hf
      simp [unnamed, hf, h, hlt]
    · exact absurd (by simp [hf]) h.1
  · rename_i h
    rw [List.count_eq_zero]
    simp [unnamed, h]

end Tables

namespace Symbols

variable (memory : Memory) (d : Directory) (tag : String)

/-- The symbols of a directory as they are found: by the name table, then by the index of the
functions without a name. -/
def unordered : List Symbol :=
  namedSymbols memory d (Tables.read memory d).pairs
    ++ (Tables.read memory d).unnamed.map fun i => ⟨d.ordinal i, synthetic tag (d.ordinal i)⟩

/-- The symbols that fill in for missing names are those of the unnamed indices. -/
lemma unnamedSymbols_eq {tables : Tables} {addresses : List UInt32}
    (hf : tables.functions = some addresses) :
    unnamedSymbols d tag addresses (isNamed addresses.length tables.pairs).toList =
      tables.unnamed.map fun i => ⟨d.ordinal i, synthetic tag (d.ordinal i)⟩ := by
  have hlength : (isNamed addresses.length tables.pairs).toList.length = addresses.length := by
    simp
  rw [unnamedSymbols, zipIdx_zip_eq _ _ 0 false hlength, List.filterMap_map, Tables.unnamed, hf,
    Option.getD_some]
  apply filterMap_eq_map_filter
  intro i hi
  have hmark := getElem?_isNamed addresses.length tables.pairs i (List.mem_range.mp hi)
  have hkeep : (addresses.getD i 0 ≠ 0 ∧
      !(isNamed addresses.length tables.pairs).toList.getD i false) ↔ tables.Unnamed i := by
    rw [List.getD_eq_getElem?_getD (l := (isNamed _ _).toList), Array.getElem?_toList, hmark,
      Tables.Unnamed, Tables.nameCount_eq_zero_iff, Tables.Exports, hf]
    simp
  exact if_congr hkeep rfl rfl

variable {memory d}

/-- A directory whose tables can be read has symbols, sorted by ordinal. -/
lemma ofDirectory_eq (h : (Tables.read memory d).Readable) :
    ofDirectory memory d tag = .ok {
      pending := (unordered memory d tag).mergeSort fun a b => a.ordinal ≤ b.ordinal
      named := d.numberOfNames
      total := d.numberOfFunctions
      base := d.base } := by
  obtain ⟨addresses, hf⟩ := Option.isSome_iff_exists.mp h.functions
  have hn : (Tables.read memory d).names.isNone = false := by simpa using h.names
  have ho : (Tables.read memory d).ordinals.isNone = false := by simpa using h.ordinals
  unfold ofDirectory
  simp only [hn, ho, hf, unordered, ← unnamedSymbols_eq d tag hf]
  rfl

/-- Without a table of names there are no symbols. -/
lemma ofDirectory_of_names_eq_none (hn : (Tables.read memory d).names = none) :
    ofDirectory memory d tag = .error (.missingTable .name) := by
  unfold ofDirectory
  simp only [hn]
  rfl

/-- Without a table of indices there are no symbols. -/
lemma ofDirectory_of_ordinals_eq_none (hn : (Tables.read memory d).names.isSome)
    (ho : (Tables.read memory d).ordinals = none) :
    ofDirectory memory d tag = .error (.missingTable .ordinal) := by
  have hn : (Tables.read memory d).names.isNone = false := by simpa using hn
  unfold ofDirectory
  simp only [hn, ho]
  rfl

/-- Without a table of addresses there are no symbols. -/
lemma ofDirectory_of_functions_eq_none (hn : (Tables.read memory d).names.isSome)
    (ho : (Tables.read memory d).ordinals.isSome) (hf : (Tables.read memory d).functions = none) :
    ofDirectory memory d tag = .error (.missingTable .address) := by
  have hn : (Tables.read memory d).names.isNone = false := by simpa using hn
  have ho : (Tables.read memory d).ordinals.isNone = false := by simpa using ho
  unfold ofDirectory
  simp only [hn, ho, hf]
  rfl

variable {tag}

/-- A directory that has symbols has tables that can be read. -/
lemma readable_of_ofDirectory {s : Symbols} (h : ofDirectory memory d tag = .ok s) :
    (Tables.read memory d).Readable := by
  have hn : (Tables.read memory d).names.isSome := by
    rw [Option.isSome_iff_ne_none]
    intro hnone
    rw [ofDirectory_of_names_eq_none tag hnone] at h
    cases h
  have ho : (Tables.read memory d).ordinals.isSome := by
    rw [Option.isSome_iff_ne_none]
    intro hnone
    rw [ofDirectory_of_ordinals_eq_none tag hn hnone] at h
    cases h
  refine ⟨hn, ho, ?_⟩
  rw [Option.isSome_iff_ne_none]
  intro hnone
  rw [ofDirectory_of_functions_eq_none tag hn ho hnone] at h
  cases h

/-- Sorting leaves the symbols of a directory what they are. -/
lemma perm_unordered {s : Symbols} (h : ofDirectory memory d tag = .ok s) :
    s.pending.Perm (unordered memory d tag) := by
  rw [ofDirectory_eq tag (readable_of_ofDirectory h)] at h
  cases h
  exact List.mergeSort_perm _ _

/-! ## Counting -/

/-- Of the symbols of the name table as many have an ordinal as its index has names. -/
lemma countP_namedSymbols {tables : Tables} {index : Nat} (hi : index < addressLimit) :
    (namedSymbols memory d tables.pairs).countP (fun x => x.ordinal = d.ordinal index) =
      tables.nameCount index := by
  rw [namedSymbols, List.countP_map, Tables.nameCount]
  apply List.countP_congr
  intro p hp
  have hlt : p.1 < addressLimit := Nat.lt_trans (Tables.fst_lt_of_mem_pairs hp) (by decide)
  simp [d.ordinal_inj hlt hi]

/-- Of the symbols without a name one has the ordinal of each unnamed index. -/
lemma countP_synthetic {tables : Tables} {addresses : List UInt32} {index : Nat}
    (hf : tables.functions = some addresses) (hlt : addresses.length < addressLimit)
    (hi : index < addressLimit) :
    (tables.unnamed.map fun i => (⟨d.ordinal i, synthetic tag (d.ordinal i)⟩ : Symbol)).countP
        (fun x => x.ordinal = d.ordinal index) =
      if tables.Unnamed index then 1 else 0 := by
  rw [List.countP_map, ← tables.count_unnamed index, List.count]
  apply List.countP_congr
  intro i hmem
  have hrange : i < addresses.length := by
    have := List.mem_of_mem_filter hmem
    simpa [hf] using this
  simp [d.ordinal_inj (Nat.lt_trans hrange hlt) hi]

/-- The symbols of an ordinal: as many as its index has names, and one if the index is exported
without a name. -/
lemma countP_unordered (hm : memory.Exact) (h : (Tables.read memory d).Readable) {index : Nat}
    (hi : index < addressLimit) :
    (unordered memory d tag).countP (fun x => x.ordinal = d.ordinal index) =
      (Tables.read memory d).nameCount index
        + if (Tables.read memory d).Unnamed index then 1 else 0 := by
  obtain ⟨addresses, hf⟩ := Option.isSome_iff_exists.mp h.functions
  rw [unordered, List.countP_append, countP_namedSymbols hi,
    countP_synthetic hf (Tables.length_functions_lt hm hf) hi]

end Symbols

end PeCoff.Export
