import Mathlib
import PeCoff.Proofs.Export.Description
import PeCoff.Proofs.Export.Order
import PeCoff.Proofs.Resolution

/-!
# Tables without entries

A table without entries is read as a range of no bytes, and such a range has to be placed like any
other. The main statement is `missingTable_of_no_entries`: in the memory of an image a table that
declares no entries is missing exactly when no section has its address, as is the case for address
zero. Where its address is placed, the library has one symbol for each exported function.
-/

namespace PeCoff

namespace Executable

variable {e : Executable} {address : Nat}

/-- The image has a place for a range of no bytes at an address: a section has the address or ends
there, and the file reaches that far. -/
def PlacesEmpty (e : Executable) (address : Nat) : Prop :=
  ∃ s later, SectionHeader.Places e.sections s later address 0 ∧
    s.offsetOf address ≤ e.image.size

/-- No bytes can be read at an address exactly when the image has a place for them. -/
lemma isSome_memory_zero_iff : (e.memory address 0).isSome ↔ e.PlacesEmpty address := by
  simp only [memory, Option.isSome_iff_exists, Option.bind_eq_some_iff, fileOffset,
    SectionHeader.resolve_eq_some_iff, Image.read_eq_some_iff, PlacesEmpty]
  constructor
  · rintro ⟨_, _, ⟨s, later, hplaces, rfl⟩, hend, -⟩
    exact ⟨s, later, hplaces, hend⟩
  · rintro ⟨s, later, hplaces, hend⟩
    exact ⟨_, _, ⟨s, later, hplaces, rfl⟩, hend, rfl⟩

/-- There is no place at address zero. -/
lemma not_placesEmpty_zero : ¬ e.PlacesEmpty 0 :=
  fun ⟨_, _, hplaces, _⟩ => hplaces.address_ne_zero rfl

end Executable

namespace Export

variable {e : Executable} {d : Directory}

/-- A table without entries is there exactly when the image has a place for it. -/
lemma Tables.isSome_column_iff {α : Type} {l : Layout α} {address : UInt32} :
    (column e.memory l address 0).isSome ↔ e.PlacesEmpty address.toNat := by
  rw [column, Option.isSome_map, ← Executable.isSome_memory_zero_iff]
  exact iff_of_eq (by simp)

/-- An empty table of names is there exactly when its address has a place. -/
lemma Tables.isSome_names_iff (h : d.numberOfNames = 0) :
    (Tables.read e.memory d).names.isSome ↔ e.PlacesEmpty d.addressOfNames.toNat := by
  rw [← isSome_column_iff, Tables.read, h]

/-- An empty table of indices is there exactly when its address has a place. -/
lemma Tables.isSome_ordinals_iff (h : d.numberOfNames = 0) :
    (Tables.read e.memory d).ordinals.isSome ↔ e.PlacesEmpty d.addressOfNameOrdinals.toNat := by
  rw [← isSome_column_iff, Tables.read, h]

/-- An empty table of functions is there exactly when its address has a place. -/
lemma Tables.isSome_functions_iff (h : d.numberOfFunctions = 0) :
    (Tables.read e.memory d).functions.isSome ↔ e.PlacesEmpty d.addressOfFunctions.toNat := by
  rw [← isSome_column_iff, Tables.read, h]

/-! ## No names -/

/-- Without names all exported indices are unnamed. -/
lemma Tables.unnamed_of_pairs_eq_nil {tables : Tables} (h : tables.pairs = []) :
    tables.unnamed = Table.exportedIndices (tables.functions.getD []) := by
  rw [unnamed, Table.exportedIndices]
  refine List.filter_congr fun index _ => ?_
  simp [Unnamed, Exports, nameCount, h]

/-- When no names are declared and the image has a place for both tables of names, there are none
and the tables can be read. -/
lemma Tables.readable_of_no_names (hnames : d.numberOfNames = 0)
    (hf : (Tables.read e.memory d).functions.isSome)
    (hn : e.PlacesEmpty d.addressOfNames.toNat)
    (ho : e.PlacesEmpty d.addressOfNameOrdinals.toNat) :
    (Tables.read e.memory d).Readable ∧ (Tables.read e.memory d).pairs = [] := by
  have hr : (Tables.read e.memory d).Readable :=
    ⟨(isSome_names_iff hnames).mpr hn, (isSome_ordinals_iff hnames).mpr ho, hf⟩
  have hlength := length_pairs e.memory_exact hr
  rw [hnames] at hlength
  exact ⟨hr, List.length_eq_zero_iff.mp hlength⟩

/-- When no names are declared, each exported index has one symbol, with a name that is made up. -/
lemma Symbols.perm_pending_of_no_names {memory : Memory} {tag : String} {s : Symbols}
    (hpairs : (Tables.read memory d).pairs = []) (hs : ofDirectory memory d tag = .ok s) :
    s.pending.Perm ((Table.exportedIndices ((Tables.read memory d).functions.getD [])).map fun i =>
      ⟨d.ordinal i, synthetic tag (d.ordinal i)⟩) := by
  have hperm := perm_unordered hs
  rwa [unordered, hpairs, Tables.unnamed_of_pairs_eq_nil hpairs] at hperm

/-- In an image a table that declares no entries is missing when the image has no place for a range
of no bytes at its address, as at address zero, and only then. With a place for both tables of
names, a directory that declares no names has one symbol for each exported index; with a place for
the addresses, a directory that declares no functions has no functions. -/
theorem missingTable_of_no_entries (e : Executable) (d : Directory) :
    (d.numberOfNames = 0 → (Tables.read e.memory d).functions.isSome → ∀ tag,
      (e.PlacesEmpty d.addressOfNames.toNat → e.PlacesEmpty d.addressOfNameOrdinals.toNat →
        ∃ s xs, Symbols.ofDirectory e.memory d tag = .ok s ∧ (∀ ys, s.Yields ys ↔ ys = xs) ∧
          xs.Perm ((Table.exportedIndices ((Tables.read e.memory d).functions.getD [])).map
            fun i => ⟨d.ordinal i, Symbols.synthetic tag (d.ordinal i)⟩)) ∧
      (¬ e.PlacesEmpty d.addressOfNames.toNat →
        Symbols.ofDirectory e.memory d tag = .error (.missingTable .name)) ∧
      (e.PlacesEmpty d.addressOfNames.toNat → ¬ e.PlacesEmpty d.addressOfNameOrdinals.toNat →
        Symbols.ofDirectory e.memory d tag = .error (.missingTable .ordinal))) ∧
    (d.numberOfFunctions = 0 → ∀ range : DataDirectory,
      e.memory.record? Directory.layout range.address.toNat = some d →
      (e.PlacesEmpty d.addressOfFunctions.toNat →
        ∃ t, Table.decode e.memory range = .ok t ∧ t.functions = []) ∧
      (¬ e.PlacesEmpty d.addressOfFunctions.toNat →
        Table.decode e.memory range = .error (.missingTable .address))) ∧
    ¬ e.PlacesEmpty 0 := by
  refine ⟨fun hnames hf tag => ?_, fun hfunctions range hd => ?_, Executable.not_placesEmpty_zero⟩
  -- Without names both name tables are ranges of length zero, which are there exactly where they
  -- can be placed.
  · refine ⟨fun hn ho => ?_, fun hn => ?_, fun hn ho => ?_⟩
    · obtain ⟨hr, hpairs⟩ := Tables.readable_of_no_names hnames hf hn ho
      have hs := Symbols.ofDirectory_eq tag hr
      exact ⟨_, _, hs, fun _ => Symbols.yields_iff, Symbols.perm_pending_of_no_names hpairs hs⟩
    · have hnone := mt (Tables.isSome_names_iff hnames).mp hn
      exact Symbols.ofDirectory_of_names_eq_none tag (by simpa using hnone)
    · have hnone := mt (Tables.isSome_ordinals_iff hnames).mp ho
      exact Symbols.ofDirectory_of_ordinals_eq_none tag
        ((Tables.isSome_names_iff hnames).mpr hn) (by simpa using hnone)
  -- The same holds of the table of functions.
  · refine ⟨fun hf => ?_, fun hf => ?_⟩
    · obtain ⟨addresses, haddresses⟩ :=
        Option.isSome_iff_exists.mp ((Tables.isSome_functions_iff hfunctions).mpr hf)
      have hlength := Tables.length_column e.memory_exact (by decide) haddresses
      rw [hfunctions] at hlength
      obtain rfl := List.length_eq_zero_iff.mp hlength
      exact ⟨_, Table.decode_eq hd haddresses, rfl⟩
    · have hnone := mt (Tables.isSome_functions_iff hfunctions).mp hf
      exact Table.decode_of_functions_eq_none hd (by simpa using hnone)

/-- The directory of a library with one function and no names. Both tables of names have one
address. -/
def ordinalOnlyDirectory (names : UInt32) : Directory :=
  { Build.exportDirectory 0x1000 [0x2000] [] with
    addressOfNames := names
    addressOfNameOrdinals := names }

/-- The image of this library. Its section ends at `0x102C`. -/
def ordinalOnlyImage (names : UInt32) : Image :=
  Build.image ⟨0x1000, 44⟩
    [(0x1000, Directory.layout.write (ordinalOnlyDirectory names) ++ Layout.u32.write 0x2000)]

/-- The directory of a library with no function, whose addresses are at address zero. -/
def nothingDirectory : Directory :=
  { Build.exportDirectory 0x1000 [] [] with addressOfFunctions := 0 }

/-- The image of this library. -/
def nothingImage : Image :=
  Build.image ⟨0x1000, 40⟩ [(0x1000, Directory.layout.write nothingDirectory)]

/-- What is in an image without names, which are said to be at the end of its section. -/
lemma exists_ordinalOnly_end : ∃ e, Executable.parse (ordinalOnlyImage 0x102C) = .ok e ∧
    (e.memory (0x102C : UInt32).toNat 0).isSome ∧
    (Tables.read e.memory (ordinalOnlyDirectory 0x102C)).functions = some [0x2000] :=
  Build.exists_of_any (by decide +kernel)

/-- What is in an image without names, which are said to be at address zero. -/
lemma exists_ordinalOnly_zero : ∃ e, Executable.parse (ordinalOnlyImage 0) = .ok e ∧
    e.memory.record? Directory.layout (0x1000 : UInt32).toNat = some (ordinalOnlyDirectory 0) ∧
    (Tables.read e.memory (ordinalOnlyDirectory 0)).functions = some [0x2000] :=
  Build.exists_of_any (by decide +kernel)

/-- What is in an image without functions. -/
lemma exists_nothing : ∃ e, Executable.parse nothingImage = .ok e ∧
    e.memory.record? Directory.layout (0x1000 : UInt32).toNat = some nothingDirectory :=
  Build.exists_of_any (by decide +kernel)

/-- A library without names has its symbol when its section ends at the address of the names, and
none when that is zero. A library without functions whose addresses are at zero has no table. -/
theorem missingTable_of_no_entries_samples :
    (∃ e s, Executable.parse (ordinalOnlyImage 0x102C) = .ok e ∧
      Symbols.ofDirectory e.memory (ordinalOnlyDirectory 0x102C) "lib" = .ok s ∧
      s.Yields [⟨1, Symbols.synthetic "lib" 1⟩]) ∧
    (∃ e, Executable.parse (ordinalOnlyImage 0) = .ok e ∧
      Symbols.ofDirectory e.memory (ordinalOnlyDirectory 0) "lib" =
        .error (.missingTable .name)) ∧
    ∃ e, Executable.parse nothingImage = .ok e ∧
      Table.decode e.memory ⟨0x1000, 40⟩ = .error (.missingTable .address) := by
  refine ⟨?_, ?_, ?_⟩
  · obtain ⟨e, he, hplace, hf⟩ := exists_ordinalOnly_end
    have hplaces := Executable.isSome_memory_zero_iff.mp hplace
    obtain ⟨hnames, -⟩ := missingTable_of_no_entries e (ordinalOnlyDirectory 0x102C)
    obtain ⟨hsymbols, -⟩ := hnames rfl (by rw [hf]; rfl) "lib"
    obtain ⟨s, xs, hs, hyields, hperm⟩ := hsymbols hplaces hplaces
    rw [hf] at hperm
    exact ⟨e, s, he, hs, (hyields _).mpr (List.singleton_perm.mp hperm.symm)⟩
  · obtain ⟨e, he, -, hf⟩ := exists_ordinalOnly_zero
    obtain ⟨hnames, -, hzero⟩ := missingTable_of_no_entries e (ordinalOnlyDirectory 0)
    obtain ⟨-, hmissing, -⟩ := hnames rfl (by rw [hf]; rfl) "lib"
    exact ⟨e, he, hmissing hzero⟩
  · obtain ⟨e, he, hd⟩ := exists_nothing
    obtain ⟨-, hfunctions, hzero⟩ := missingTable_of_no_entries e nothingDirectory
    obtain ⟨-, hmissing⟩ := hfunctions rfl ⟨0x1000, 40⟩ hd
    exact ⟨e, he, hmissing hzero⟩

/-- A table that declares no entries can be missing, be it of names or of addresses. -/
theorem exists_empty_table_missing :
    (∃ image e d, ∃ range : DataDirectory, Executable.parse image = .ok e ∧
      e.memory.record? Directory.layout range.address.toNat = some d ∧
      d.numberOfNames = 0 ∧ (Tables.read e.memory d).functions.isSome ∧
      Symbols.ofDirectory e.memory d "lib" = .error (.missingTable .name)) ∧
    ∃ image e d, ∃ range : DataDirectory, Executable.parse image = .ok e ∧
      e.memory.record? Directory.layout range.address.toNat = some d ∧
      d.numberOfFunctions = 0 ∧
      Table.decode e.memory range = .error (.missingTable .address) := by
  constructor
  · obtain ⟨e, he, hd, hf⟩ := exists_ordinalOnly_zero
    have hzero : ¬ e.PlacesEmpty (ordinalOnlyDirectory 0).addressOfNames.toNat :=
      Executable.not_placesEmpty_zero
    have hnone := mt (Tables.isSome_names_iff rfl).mp hzero
    exact ⟨_, e, _, ⟨0x1000, 44⟩, he, hd, rfl, by rw [hf]; rfl,
      Symbols.ofDirectory_of_names_eq_none "lib" (by simpa using hnone)⟩
  · obtain ⟨e, he, hd⟩ := exists_nothing
    have hzero : ¬ e.PlacesEmpty nothingDirectory.addressOfFunctions.toNat :=
      Executable.not_placesEmpty_zero
    have hnone := mt (Tables.isSome_functions_iff rfl).mp hzero
    exact ⟨_, e, _, ⟨0x1000, 40⟩, he, hd, rfl,
      Table.decode_of_functions_eq_none hd (by simpa using hnone)⟩

end Export

end PeCoff
