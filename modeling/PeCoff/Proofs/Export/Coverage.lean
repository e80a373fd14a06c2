import Mathlib
import PeCoff.Proofs.Build
import PeCoff.Proofs.Export.Functions
import PeCoff.Proofs.Export.Symbols

/-!
# Which ordinals are listed

The symbols and the functions of an export directory are two readings of the same three tables. The
main statements are `ordinals_agree_iff`, by which they list the same ordinals exactly when every
entry of the name table belongs to an exported index, and `countP_ordinal_of_exports`, by which an
exported index has one symbol exactly when it has at most one name. Both conditions can fail: a name
of an index that is not exported is still a symbol, and each name of an index is a symbol of its
own.
-/

namespace PeCoff.Export

/-- Every entry of the name table belongs to an exported index. -/
def Tables.NamesExported (tables : Tables) : Prop :=
  ∀ p ∈ tables.pairs, tables.Exports p.1

/-- An index has a name when an entry of the name table belongs to it. -/
lemma Tables.nameCount_ne_zero_iff (tables : Tables) (index : Nat) :
    tables.nameCount index ≠ 0 ↔ ∃ p ∈ tables.pairs, p.1 = index := by
  simp [nameCount, List.countP_eq_zero]

namespace Symbols

variable {memory : Memory} {d : Directory}

/-- The ordinals of the symbols are those of the indices that have a name or are exported. -/
lemma exists_mem_unordered_iff (tag : String) (h : (Tables.read memory d).Readable)
    (o : UInt32) :
    (∃ x ∈ unordered memory d tag, x.ordinal = o) ↔
      ∃ i, ((Tables.read memory d).nameCount i ≠ 0 ∨ (Tables.read memory d).Exports i) ∧
        d.ordinal i = o := by
  obtain ⟨addresses, hf⟩ := Option.isSome_iff_exists.mp h.functions
  simp only [unordered, namedSymbols, List.mem_append, List.mem_map,
    Tables.nameCount_ne_zero_iff]
  constructor
  · rintro ⟨x, ⟨p, hp, rfl⟩ | ⟨i, hi, rfl⟩, ho⟩
    · exact ⟨p.1, .inl ⟨p, hp, rfl⟩, ho⟩
    · have hunnamed : (Tables.read memory d).Unnamed i := by
        simpa using (List.mem_filter.mp hi).2
      exact ⟨i, .inr hunnamed.1, ho⟩
  · rintro ⟨i, hi, ho⟩
    -- An index with a name has a symbol for that; any other one needs its address.
    by_cases hname : ∃ p ∈ (Tables.read memory d).pairs, p.1 = i
    · obtain ⟨p, hp, rfl⟩ := hname
      exact ⟨_, .inl ⟨p, hp, rfl⟩, ho⟩
    · have hexports := hi.resolve_left hname
      have hzero : (Tables.read memory d).nameCount i = 0 := by
        rw [← Tables.nameCount_ne_zero_iff] at hname
        exact not_not.mp hname
      refine ⟨_, .inr ⟨i, ?_, rfl⟩, ho⟩
      rw [Tables.unnamed, hf]
      exact List.mem_filter.mpr
        ⟨List.mem_range.mpr (hexports.lt hf), by simpa using ⟨hexports, hzero⟩⟩

/-- How many symbols an exported index has: one for each of its names, and one if it has none. -/
lemma countP_pending (hm : memory.Exact) {tag : String} {s : Symbols}
    (hs : ofDirectory memory d tag = .ok s) {index : Nat} (hi : (Tables.read memory d).Exports index) :
    s.pending.countP (fun x => x.ordinal = d.ordinal index) =
      max 1 ((Tables.read memory d).nameCount index) := by
  rw [(perm_unordered hs).countP_eq,
    countP_unordered hm (readable_of_ofDirectory hs) (hi.lt_addressLimit hm)]
  by_cases hzero : (Tables.read memory d).nameCount index = 0
  · rw [if_pos ⟨hi, hzero⟩, hzero]
    rfl
  · rw [if_neg fun h => hzero h.2]
    omega

end Symbols

/-- A directory whose tables can be read has symbols, and of each exported index as many as it has
names, or one if it has none. So each has exactly one symbol if and only if none has two names. -/
theorem countP_ordinal_of_exports {memory : Memory} (hm : memory.Exact) {d : Directory}
    (tag : String) (h : (Tables.read memory d).Readable) :
    ∃ s, Symbols.ofDirectory memory d tag = .ok s ∧
      (∀ i, (Tables.read memory d).Exports i →
        s.pending.countP (fun x => x.ordinal = d.ordinal i) =
          max 1 ((Tables.read memory d).nameCount i)) ∧
      ((∀ i, (Tables.read memory d).Exports i →
          s.pending.countP (fun x => x.ordinal = d.ordinal i) = 1) ↔
        ∀ i, (Tables.read memory d).Exports i → (Tables.read memory d).nameCount i ≤ 1) := by
  have hs := Symbols.ofDirectory_eq tag h
  refine ⟨_, hs, fun i hi => Symbols.countP_pending hm hs hi, ?_⟩
  refine forall_congr' fun i => imp_congr_right fun hi => ?_
  rw [Symbols.countP_pending hm hs hi]
  omega

/-- A memory with one function that is named twice. -/
def aliasMemory : Memory :=
  .flat (.ofList (Build.exportBytes 0 [0x1000] [0x38, 0x38] [0, 0] ++ [65, 0])) true

/-- The directory of one function that is named twice. -/
def aliasDirectory : Directory :=
  Build.exportDirectory 0 [0x1000] [0x38, 0x38]

/-- Two symbols stand for one function that is named twice. -/
theorem countP_ordinal_of_exports_alias :
    aliasMemory.Exact ∧ (Tables.read aliasMemory aliasDirectory).Readable ∧
      ∃ s, Symbols.ofDirectory aliasMemory aliasDirectory "lib" = .ok s ∧
        s.pending.countP (fun x => x.ordinal = aliasDirectory.ordinal 0) = 2 := by
  have hm : aliasMemory.Exact := Memory.flat_exact _ _
  have hr : (Tables.read aliasMemory aliasDirectory).Readable := by decide +kernel
  have hi : (Tables.read aliasMemory aliasDirectory).Exports 0 := by decide +kernel
  have hcount : (Tables.read aliasMemory aliasDirectory).nameCount 0 = 2 := by decide +kernel
  obtain ⟨s, hs, hsymbols, _⟩ := countP_ordinal_of_exports hm "lib" hr
  refine ⟨hm, hr, s, hs, ?_⟩
  rw [hsymbols 0 hi, hcount]
  rfl

/-- An exported index can have more than one symbol, although all three tables can be read. -/
theorem exists_countP_ordinal_ne_one :
    ∃ (memory : Memory) (d : Directory) (s : Symbols) (i : Nat), memory.Exact ∧
      (Tables.read memory d).Readable ∧ Symbols.ofDirectory memory d "lib" = .ok s ∧
      (Tables.read memory d).Exports i ∧
      s.pending.countP (fun x => x.ordinal = d.ordinal i) ≠ 1 := by
  have hm : aliasMemory.Exact := Memory.flat_exact _ _
  have hr : (Tables.read aliasMemory aliasDirectory).Readable := by decide +kernel
  have hi : (Tables.read aliasMemory aliasDirectory).Exports 0 := by decide +kernel
  have hcount : (Tables.read aliasMemory aliasDirectory).nameCount 0 = 2 := by decide +kernel
  have hs := Symbols.ofDirectory_eq "lib" hr
  refine ⟨aliasMemory, aliasDirectory, _, 0, hm, hr, hs, hi, ?_⟩
  rw [Symbols.countP_pending hm hs hi, hcount]
  decide

end PeCoff.Export

namespace PeCoff.Executable

open Export

/-- The exported functions, none when there is no export directory. -/
def functionsOf (t : Option Export.Table) : List Function :=
  (t.map Export.Table.functions).getD []

variable {e : Executable}

/-- The header of the directory from which the functions of an image were decoded. -/
lemma exportDirectory_of_exports {t : Export.Table} (h : e.exports = .ok (some t)) :
    ∃ range d addresses, e.exportDirectory = some d ∧
      (Tables.read e.memory d).functions = some addresses ∧
      t.functions = Export.Table.functionsOf e.memory range d addresses := by
  unfold exports at h
  split at h
  · cases h
  · rename_i range bs hdirectory
    cases htable : Export.Table.decode e.memory range with
    | error error =>
      rw [htable] at h
      cases h
    | ok table =>
      rw [htable] at h
      cases h
      obtain ⟨addresses, hd, hf, hfunctions⟩ := Export.Table.exists_of_decode htable
      refine ⟨range, _, addresses, ?_, hf, hfunctions⟩
      rw [exportDirectory, hdirectory]
      exact hd

/-- Without an export directory there are no symbols. -/
lemma exportDirectory_of_exports_none (h : e.exports = .ok none) : e.exportDirectory = none := by
  unfold exports at h
  split at h
  · rename_i hdirectory
    rw [exportDirectory, hdirectory]
    rfl
  · rename_i range bs hdirectory
    cases htable : Export.Table.decode e.memory range with
    | error error =>
      rw [htable] at h
      cases h
    | ok table =>
      rw [htable] at h
      cases h

/-- An image has functions when the header of its export directory and the addresses can be read. -/
lemma exists_exports {d : Directory} (hd : e.exportDirectory = some d)
    (hf : (Tables.read e.memory d).functions.isSome) : ∃ t, e.exports = .ok (some t) := by
  obtain ⟨⟨range, bs⟩, hdirectory, hrecord⟩ := Option.bind_eq_some_iff.mp hd
  obtain ⟨addresses, hf⟩ := Option.isSome_iff_exists.mp hf
  obtain ⟨t, ht⟩ : ∃ t, Export.Table.decode e.memory range = .ok t :=
    ⟨_, Export.Table.decode_eq hrecord hf⟩
  refine ⟨t, ?_⟩
  simp only [exports, hdirectory, ht]
  rfl

/-- The symbols of an image are those of its export directory. -/
lemma exportSymbols_eq_ofDirectory {d : Directory} (hd : e.exportDirectory = some d)
    (tag : String) : e.exportSymbols tag = Symbols.ofDirectory e.memory d tag := by
  simp only [exportSymbols, hd]

/-- Without an export directory there are no symbols to hand out. -/
lemma pending_eq_nil_of_exportDirectory {tag : String} {s : Symbols}
    (hd : e.exportDirectory = none) (hs : e.exportSymbols tag = .ok s) : s.pending = [] := by
  simp only [exportSymbols, hd] at hs
  cases hs
  rfl

/-- The ordinals of the symbols of an image. -/
lemma exists_mem_pending_iff {d : Directory} {tag : String} {s : Symbols}
    (hd : e.exportDirectory = some d) (hs : e.exportSymbols tag = .ok s) (o : UInt32) :
    (∃ x ∈ s.pending, x.ordinal = o) ↔
      ∃ i, ((Tables.read e.memory d).nameCount i ≠ 0 ∨ (Tables.read e.memory d).Exports i) ∧
        d.ordinal i = o := by
  rw [exportSymbols_eq_ofDirectory hd] at hs
  rw [← Symbols.exists_mem_unordered_iff tag (Symbols.readable_of_ofDirectory hs)]
  simp only [(Symbols.perm_unordered hs).mem_iff]

/-- The ordinals of the functions of an image. -/
lemma exists_mem_functionsOf_iff {d : Directory} {t : Option Export.Table}
    (hd : e.exportDirectory = some d) (ht : e.exports = .ok t) (o : UInt32) :
    (∃ f ∈ functionsOf t, f.ordinal = o) ↔
      ∃ i, (Tables.read e.memory d).Exports i ∧ d.ordinal i = o := by
  cases t with
  | none =>
    rw [exportDirectory_of_exports_none ht] at hd
    cases hd
  | some t =>
    obtain ⟨range, d', addresses, hd', hf, hfunctions⟩ := exportDirectory_of_exports ht
    cases Option.some.inj (hd.symm.trans hd')
    rw [← Export.Table.exists_mem_functions_iff range hf, ← hfunctions]
    rfl

/-- When both readings of the export directory succeed, every function has a symbol of its ordinal,
and the ordinals of the symbols are those of the functions exactly when every entry of the name
table belongs to an exported index. -/
theorem ordinals_agree_iff {tag : String} {s : Symbols} {t : Option Export.Table}
    (hs : e.exportSymbols tag = .ok s) (ht : e.exports = .ok t) :
    (∀ f ∈ functionsOf t, ∃ x ∈ s.pending, x.ordinal = f.ordinal) ∧
      ((∀ o, (∃ x ∈ s.pending, x.ordinal = o) ↔ ∃ f ∈ functionsOf t, f.ordinal = o) ↔
        ∀ d, e.exportDirectory = some d → (Tables.read e.memory d).NamesExported) := by
  cases hd : e.exportDirectory with
  | none =>
    have hnone : t = none := by
      cases t with
      | none => rfl
      | some t =>
        obtain ⟨_, _, _, hd', _⟩ := exportDirectory_of_exports ht
        rw [hd] at hd'
        cases hd'
    simp [hnone, pending_eq_nil_of_exportDirectory hd hs, functionsOf]
  | some d =>
    have hsymbols := exists_mem_pending_iff hd hs
    have hlisted := exists_mem_functionsOf_iff hd ht
    constructor
    · intro f hmem
      obtain ⟨i, hi, ho⟩ := (hlisted f.ordinal).mp ⟨f, hmem, rfl⟩
      exact (hsymbols f.ordinal).mpr ⟨i, .inr hi, ho⟩
    · simp only [hsymbols, hlisted, Option.some.injEq, forall_eq']
      constructor
      -- Ordinals of two indices differ, as indices stay below the number of addresses.
      · intro h p hp
        have hnamed := (Tables.nameCount_ne_zero_iff _ p.1).mpr ⟨p, hp, rfl⟩
        obtain ⟨i, hi, ho⟩ := (h (d.ordinal p.1)).mp ⟨p.1, .inl hnamed, rfl⟩
        have hilt := hi.lt_addressLimit e.memory_exact
        have hplt : p.1 < addressLimit :=
          Nat.lt_trans (Tables.fst_lt_of_mem_pairs hp) (by decide)
        exact (d.ordinal_inj hilt hplt).mp ho ▸ hi
      · intro h o
        constructor
        · rintro ⟨i, hi | hi, ho⟩
          · obtain ⟨p, hp, rfl⟩ := (Tables.nameCount_ne_zero_iff _ i).mp hi
            exact ⟨p.1, h p hp, ho⟩
          · exact ⟨i, hi, ho⟩
        · rintro ⟨i, hi, ho⟩
          exact ⟨i, .inr hi, ho⟩

/-- An image with two functions, of which the second has a name but no address. -/
def ghostImage : Image :=
  Build.image ⟨0x1000, 60⟩
    [(0x1000, Build.exportBytes 0x1000 [0x2000, 0] [0x1036] [1] ++ "Ghost\x00".toUTF8.data.toList)]

/-- The export directory of an image with a name that belongs to no function. -/
def ghostDirectory : Directory :=
  Build.exportDirectory 0x1000 [0x2000, 0] [0x1036]

/-- What is in an image with a name that belongs to no function. -/
lemma exists_ghost : ∃ e, parse ghostImage = .ok e ∧ e.exportDirectory = some ghostDirectory ∧
    (Tables.read e.memory ghostDirectory).Readable ∧
    (Tables.read e.memory ghostDirectory).nameCount 1 ≠ 0 ∧
    ¬ (Tables.read e.memory ghostDirectory).Exports 1 :=
  Build.exists_of_any (by decide +kernel)

/-- When the name belongs to no function, the readings disagree although every function has a
symbol. -/
theorem ordinals_agree_iff_ghost : ∃ e s t, parse ghostImage = .ok e ∧
    e.exportSymbols "lib" = .ok s ∧ e.exports = .ok t ∧
    (∀ f ∈ functionsOf t, ∃ x ∈ s.pending, x.ordinal = f.ordinal) ∧
    ¬ ∀ o, (∃ x ∈ s.pending, x.ordinal = o) ↔ ∃ f ∈ functionsOf t, f.ordinal = o := by
  obtain ⟨e, he, hd, hr, hname, hexports⟩ := exists_ghost
  obtain ⟨t, ht⟩ := exists_exports hd hr.functions
  have hs := (exportSymbols_eq_ofDirectory hd "lib").trans (Symbols.ofDirectory_eq "lib" hr)
  obtain ⟨hsymbols, hagree⟩ := ordinals_agree_iff hs ht
  refine ⟨e, _, some t, he, hs, ht, hsymbols, ?_⟩
  intro h
  obtain ⟨p, hp, hindex⟩ := (Tables.nameCount_ne_zero_iff _ 1).mp hname
  exact hexports (hindex ▸ hagree.mp h _ hd p hp)

/-- Both readings can succeed and disagree: a name without a function is still a symbol. -/
theorem exists_ordinals_disagree : ∃ image e s t, parse image = .ok e ∧
    e.exportSymbols "lib" = .ok s ∧ e.exports = .ok t ∧
    ¬ ∀ o, (∃ x ∈ s.pending, x.ordinal = o) ↔ ∃ f ∈ functionsOf t, f.ordinal = o := by
  obtain ⟨e, he, hd, hr, hname, hexports⟩ := exists_ghost
  obtain ⟨t, ht⟩ := exists_exports hd hr.functions
  have hs := (exportSymbols_eq_ofDirectory hd "lib").trans (Symbols.ofDirectory_eq "lib" hr)
  refine ⟨ghostImage, e, _, some t, he, hs, ht, ?_⟩
  intro h
  have hsymbol := (exists_mem_pending_iff hd hs _).mpr ⟨1, .inl hname, rfl⟩
  obtain ⟨i, hi, ho⟩ := (exists_mem_functionsOf_iff hd ht _).mp ((h _).mp hsymbol)
  have hone := (ghostDirectory.ordinal_inj (hi.lt_addressLimit e.memory_exact) (by decide)).mp ho
  exact hexports (hone ▸ hi)

end PeCoff.Executable
