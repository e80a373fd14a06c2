import Mathlib
import PeCoff.Import.Delayed
import PeCoff.Proofs.Import.Stored
import PeCoff.Proofs.Patch
import PeCoff.Proofs.Walk

/-!
# Rebasing delay-load directories

A delay-load directory whose pointers are relative to the image is rebased to the old form: its
descriptors are marked as absolute, and the image base is added to their pointers and to the
addresses in the name tables. This says what is written, what is read, and when the one keeps clear
of the other. The main statements are `rebasable_of_checks` and `patched_of_checks`, by which this
is decided for a given file from lists of what is in it.
-/

namespace PeCoff.Import

namespace DelayedDescriptor

/-- The pointers that are rebased, with their places in the descriptor. -/
def pointers (d : DelayedDescriptor) : List (Nat × UInt32) :=
  [(4, d.name), (12, d.addressTable), (16, d.nameTable)]

/-- The name is a pointer of the descriptor. -/
lemma name_mem_pointers (d : DelayedDescriptor) : (4, d.name) ∈ d.pointers :=
  List.mem_cons_self

/-- The table of addresses is a pointer of the descriptor. -/
lemma addressTable_mem_pointers (d : DelayedDescriptor) : (12, d.addressTable) ∈ d.pointers :=
  List.mem_cons_of_mem _ List.mem_cons_self

/-- The table of names is a pointer of the descriptor. -/
lemma nameTable_mem_pointers (d : DelayedDescriptor) : (16, d.nameTable) ∈ d.pointers :=
  List.mem_cons_of_mem _ (List.mem_cons_of_mem _ List.mem_cons_self)

/-- The descriptor is one of a library and not the end of the directory. -/
def IsLibrary (d : DelayedDescriptor) : Prop :=
  d.name ≠ 0 ∧ d.addressTable ≠ 0 ∧ d.nameTable ≠ 0

instance (d : DelayedDescriptor) : Decidable d.IsLibrary :=
  inferInstanceAs (Decidable (_ ∧ _))

end DelayedDescriptor

/-- A delay-load directory at an address of the flat memory of a file. -/
structure DelayedDirectory where
  image : Image
  zeroReadable : Bool
  wide : Bool
  start : UInt32

/-- What is found of a library: its name and its functions. -/
def DelayedLibrary.found (l : DelayedLibrary) : Option String × Option (List Thunk) :=
  (l.name, l.thunks)

/-- A function found by a number that is higher by an offset. -/
def Thunk.shift (offset : UInt32) : Thunk → Thunk
  | .ordinal n => .ordinal n
  | .named hint name data => .named hint name (data + offset)
  | .unresolved data => .unresolved (data + offset)

namespace DelayedDirectory

variable (directory : DelayedDirectory) (base : UInt64)

/-- The memory in which the directory lies. -/
def memory : Memory :=
  .flat directory.image directory.zeroReadable

/-- The libraries of the directory in an image with a base. -/
def libraries (size : UInt32) : List DelayedLibrary :=
  (DelayedTable.decode directory.memory directory.wide base directory.start size).libraries

/-! ## The parts of a directory -/

/-- A descriptor of the directory lies at an address, maybe the one that ends it. -/
def DescriptorAt (address : Nat) (d : DelayedDescriptor) : Prop :=
  Reaches DelayedDescriptor.layout.size
    (fun p => ∃ d, directory.memory.record? DelayedDescriptor.layout p = some d ∧ d.IsLibrary)
    directory.start.toNat address ∧
  directory.memory.record? DelayedDescriptor.layout address = some d

/-- A number of a name table lies at an address, maybe the zero that ends the table. -/
def SlotAt (address : Nat) (value : UInt64) : Prop :=
  ∃ p d, directory.DescriptorAt p d ∧ d.IsLibrary ∧
    Reaches (Memory.pointerWidth directory.wide)
      (fun p => ∃ v, directory.memory.pointer? directory.wide p = some v ∧ v ≠ 0)
      d.nameTable.toNat address ∧
    directory.memory.pointer? directory.wide address = some value

/-- A descriptor of the directory lies in the file at its address. -/
lemma DescriptorAt.holds {directory : DelayedDirectory} {address : Nat} {d : DelayedDescriptor}
    (h : directory.DescriptorAt address d) :
    Memory.Addressable directory.zeroReadable address ∧
      directory.image.Holds address (DelayedDescriptor.layout.write d) :=
  Memory.flat_record?_eq_some_iff.mp h.2

/-- A slot of the directory lies in the file at its address. -/
lemma SlotAt.holds {directory : DelayedDirectory} {address : Nat} {value : UInt64}
    (h : directory.SlotAt address value) :
    Memory.FitsPointer directory.wide value ∧
      Memory.Addressable directory.zeroReadable address ∧
        directory.image.Holds address (Memory.pointerBytes directory.wide value) := by
  obtain ⟨_, _, _, _, _, hpointer⟩ := h
  exact Memory.flat_pointer?_eq_some_iff.mp hpointer

/-- A number of a name table is an address: it is neither zero nor an ordinal. -/
def IsAddress (wide : Bool) (value : UInt64) : Prop :=
  value ≠ 0 ∧ value < ordinalFlag wide

instance (wide : Bool) (value : UInt64) : Decidable (IsAddress wide value) :=
  inferInstanceAs (Decidable (_ ∧ _))

/-- The fields that are written when the directory is rebased, with their new bytes. -/
inductive Rewrites : Patch → Prop
  | mode {address : Nat} {d : DelayedDescriptor} (h : directory.DescriptorAt address d) :
      Rewrites ⟨address, Layout.u32.write (d.attributes &&& 0xFFFFFFFE)⟩
  | pointer {address skip : Nat} {d : DelayedDescriptor} {value : UInt32}
      (h : directory.DescriptorAt address d) (hpointer : (skip, value) ∈ d.pointers)
      (hvalue : value ≠ 0) :
      Rewrites ⟨address + skip, Layout.u32.write (value + base.toUInt32)⟩
  | slot {address : Nat} {value : UInt64} (h : directory.SlotAt address value)
      (hvalue : IsAddress directory.wide value) :
      Rewrites ⟨address, Memory.pointerBytes directory.wide (value + base)⟩

/-- The ranges that are read as strings, and as records of a hint and a name. -/
inductive Reads : (address length : Nat) → Prop
  | name {address : Nat} {d : DelayedDescriptor} (h : directory.DescriptorAt address d)
      (hlibrary : d.IsLibrary) (hfound : (directory.memory.text d.name.toNat).isSome) :
      Reads d.name.toNat (directory.memory.stringExtent d.name.toNat)
  | record {address : Nat} {value : UInt64} (h : directory.SlotAt address value)
      (hvalue : IsAddress directory.wide value)
      (hfound : (Thunk.hintName? directory.memory value.toUInt32.toNat).isSome) :
      Reads value.toUInt32.toNat (2 + directory.memory.stringExtent (value.toUInt32.toNat + 2))

/-- The fields that stay as they are: zero pointers, ordinals, and the zeros that end name
tables. -/
inductive Keeps : (address length : Nat) → Prop
  | pointer {address skip : Nat} {d : DelayedDescriptor} (h : directory.DescriptorAt address d)
      (hpointer : (skip, 0) ∈ d.pointers) : Keeps (address + skip) 4
  | slot {address : Nat} {value : UInt64} (h : directory.SlotAt address value)
      (hvalue : ¬ IsAddress directory.wide value) :
      Keeps address (Memory.pointerWidth directory.wide)

/-- The directory can be rebased: its libraries have relative pointers, no number that is written
grows out of its field or into an ordinal, and what is written keeps clear of what else is written
and of the strings and records. -/
structure Rebasable : Prop where
  relative : ∀ address d, directory.DescriptorAt address d → d.IsLibrary → d.attributes &&& 1 ≠ 0
  pointer_lt : ∀ address d, directory.DescriptorAt address d → ∀ x ∈ d.pointers, x.2 ≠ 0 →
    x.2.toNat + base.toNat < 2 ^ 32
  slot_lt : ∀ address value, directory.SlotAt address value → IsAddress directory.wide value →
    value.toNat + base.toNat < (ordinalFlag directory.wide).toNat
  rewrites_apart : ∀ x y, directory.Rewrites base x → directory.Rewrites base y →
    x = y ∨ x.ApartFrom y.offset y.bytes.length
  reads_apart : ∀ x, directory.Rewrites base x → ∀ address length,
    directory.Reads address length → x.ApartFrom address length

/-- What is written keeps clear of the fields that stay as they are. -/
def KeepsApart : Prop :=
  ∀ x, directory.Rewrites base x → ∀ address length, directory.Keeps address length →
    x.ApartFrom address length

/-- The same directory in another file. -/
def inFile (image : Image) : DelayedDirectory :=
  { directory with image }

/-! ## The parts of a directory as lists -/

/-- The descriptors of the directory, with that at its end. -/
def descriptors : List (Nat × DelayedDescriptor) :=
  elements DelayedDescriptor.layout.size (directory.memory.record? DelayedDescriptor.layout)
    (fun d => !decide d.IsLibrary) directory.image.size directory.start.toNat

/-- The numbers of the name tables, with the zeros at their ends. -/
def slots : List (Nat × UInt64) :=
  directory.descriptors.flatMap fun x =>
    if x.2.IsLibrary then
      elements (Memory.pointerWidth directory.wide) (directory.memory.pointer? directory.wide)
        (fun v => v == 0) directory.image.size x.2.nameTable.toNat
    else []

/-- The patches of rebasing. -/
def rewrites : List Patch :=
  (directory.descriptors.flatMap fun x =>
    ⟨x.1, Layout.u32.write (x.2.attributes &&& 0xFFFFFFFE)⟩ ::
      (x.2.pointers.filter fun y => y.2 ≠ 0).map fun y =>
        ⟨x.1 + y.1, Layout.u32.write (y.2 + base.toUInt32)⟩) ++
  (directory.slots.filter fun x => IsAddress directory.wide x.2).map fun x =>
    ⟨x.1, Memory.pointerBytes directory.wide (x.2 + base)⟩

/-- The ranges of strings and records. -/
def reads : List (Nat × Nat) :=
  ((directory.descriptors.filter fun x =>
    x.2.IsLibrary ∧ (directory.memory.text x.2.name.toNat).isSome).map fun x =>
      (x.2.name.toNat, directory.memory.stringExtent x.2.name.toNat)) ++
  (directory.slots.filter fun x => IsAddress directory.wide x.2 ∧
    (Thunk.hintName? directory.memory x.2.toUInt32.toNat).isSome).map fun x =>
      (x.2.toUInt32.toNat, 2 + directory.memory.stringExtent (x.2.toUInt32.toNat + 2))

/-- The ranges of the fields that stay as they are. -/
def keeps : List (Nat × Nat) :=
  (directory.descriptors.flatMap fun x =>
    (x.2.pointers.filter fun y => y.2 = 0).map fun y => (x.1 + y.1, 4)) ++
  (directory.slots.filter fun x => ¬ IsAddress directory.wide x.2).map fun x =>
    (x.1, Memory.pointerWidth directory.wide)

section Lists

variable {directory : DelayedDirectory} {base : UInt64} {address length : Nat}
  {d : DelayedDescriptor} {value : UInt64} (hsize : directory.image.size ≤ addressLimit)
include hsize

/-- The listed descriptors are those of the directory. -/
lemma mem_descriptors_iff :
    (address, d) ∈ directory.descriptors ↔ directory.DescriptorAt address d := by
  rw [descriptors, mem_elements_iff (by decide) _ hsize (Nat.le_add_left _ _), DescriptorAt]
  · simp only [Bool.not_eq_true', decide_eq_false_iff_not, not_not]
  · intro p hp
    have hle := (Memory.isSome_flat_record?.mp hp).2
    exact Nat.lt_of_lt_of_le (Nat.lt_add_of_pos_right (by decide)) hle

/-- The listed slots are those of the directory. -/
lemma mem_slots_iff : (address, value) ∈ directory.slots ↔ directory.SlotAt address value := by
  have hwidth : 0 < Memory.pointerWidth directory.wide := by
    cases directory.wide <;> decide
  have helement (p : Nat) (hp : (directory.memory.pointer? directory.wide p).isSome) :
      p < directory.image.size := by
    have hle := (Memory.isSome_flat_pointer?.mp hp).2
    omega
  rw [slots, List.mem_flatMap, SlotAt]
  constructor
  · rintro ⟨⟨p, d⟩, hd, hslot⟩
    by_cases hlibrary : d.IsLibrary
    · rw [if_pos hlibrary, mem_elements_iff hwidth helement hsize (Nat.le_add_left _ _)] at hslot
      simp only [beq_iff_eq] at hslot
      exact ⟨p, d, (mem_descriptors_iff hsize).mp hd, hlibrary, hslot⟩
    · rw [if_neg hlibrary] at hslot
      cases hslot
  · rintro ⟨p, d, hd, hlibrary, hslot⟩
    refine ⟨(p, d), (mem_descriptors_iff hsize).mpr hd, ?_⟩
    rw [if_pos hlibrary, mem_elements_iff hwidth helement hsize (Nat.le_add_left _ _)]
    simp only [beq_iff_eq]
    exact hslot

/-- The listed changes are those of rebasing. -/
lemma mem_rewrites_iff {x : Patch} : x ∈ directory.rewrites base ↔ directory.Rewrites base x := by
  simp only [rewrites, List.mem_append, List.mem_flatMap, List.mem_cons, List.mem_map,
    List.mem_filter, decide_eq_true_eq, Prod.exists, mem_descriptors_iff hsize,
    mem_slots_iff hsize]
  constructor
  · rintro (⟨p, d, hd, rfl | ⟨skip, v, ⟨hpointer, hne⟩, rfl⟩⟩ | ⟨p, v, ⟨hs, hvalue⟩, rfl⟩)
    · exact .mode hd
    · exact .pointer hd hpointer hne
    · exact .slot hs hvalue
  · intro h
    cases h with
    | mode hd => exact .inl ⟨_, _, hd, .inl rfl⟩
    | pointer hd hpointer hvalue => exact .inl ⟨_, _, hd, .inr ⟨_, _, ⟨hpointer, hvalue⟩, rfl⟩⟩
    | slot hs hvalue => exact .inr ⟨_, _, ⟨hs, hvalue⟩, rfl⟩

/-- Every range that is read is listed. -/
lemma mem_reads_of_reads (h : directory.Reads address length) :
    (address, length) ∈ directory.reads := by
  simp only [reads, List.mem_append, List.mem_map, List.mem_filter, decide_eq_true_eq, Prod.exists,
    mem_descriptors_iff hsize, mem_slots_iff hsize]
  cases h with
  | name hd hlibrary hfound => exact .inl ⟨_, _, ⟨hd, hlibrary, hfound⟩, rfl⟩
  | record hs hvalue hfound => exact .inr ⟨_, _, ⟨hs, hvalue, hfound⟩, rfl⟩

/-- Every range that must stay is listed. -/
lemma mem_keeps_of_keeps (h : directory.Keeps address length) :
    (address, length) ∈ directory.keeps := by
  simp only [keeps, List.mem_append, List.mem_flatMap, List.mem_map, List.mem_filter,
    decide_eq_true_eq, Prod.exists, mem_descriptors_iff hsize, mem_slots_iff hsize]
  cases h with
  | pointer hd hpointer => exact .inl ⟨_, _, hd, _, _, ⟨hpointer, rfl⟩, rfl⟩
  | slot hs hvalue => exact .inr ⟨_, _, ⟨hs, hvalue⟩, rfl⟩

/-- A directory can be rebased when the lists of its parts say so. -/
theorem rebasable_of_checks
    (hrelative : ∀ x ∈ directory.descriptors, x.2.IsLibrary → x.2.attributes &&& 1 ≠ 0)
    (hpointers : ∀ x ∈ directory.descriptors, ∀ y ∈ x.2.pointers, y.2 ≠ 0 →
      y.2.toNat + base.toNat < 2 ^ 32)
    (hslots : ∀ x ∈ directory.slots, IsAddress directory.wide x.2 →
      x.2.toNat + base.toNat < (ordinalFlag directory.wide).toNat)
    (hrewrites : ∀ x ∈ directory.rewrites base, ∀ y ∈ directory.rewrites base,
      x = y ∨ x.ApartFrom y.offset y.bytes.length)
    (hreads : ∀ x ∈ directory.rewrites base, ∀ y ∈ directory.reads, x.ApartFrom y.1 y.2) :
    directory.Rebasable base where
  relative address d hd := hrelative (address, d) ((mem_descriptors_iff hsize).mpr hd)
  pointer_lt address d hd := hpointers (address, d) ((mem_descriptors_iff hsize).mpr hd)
  slot_lt address value hs := hslots (address, value) ((mem_slots_iff hsize).mpr hs)
  rewrites_apart x y hx hy :=
    hrewrites x ((mem_rewrites_iff hsize).mpr hx) y ((mem_rewrites_iff hsize).mpr hy)
  reads_apart x hx address length hread :=
    hreads x ((mem_rewrites_iff hsize).mpr hx) (address, length) (mem_reads_of_reads hsize hread)

/-- The changes stay away from what is read when they do so by the lists. -/
lemma keepsApart_of_checks
    (hkeeps : ∀ x ∈ directory.rewrites base, ∀ y ∈ directory.keeps, x.ApartFrom y.1 y.2) :
    directory.KeepsApart base := fun x hx address length hkeep =>
  hkeeps x ((mem_rewrites_iff hsize).mpr hx) (address, length) (mem_keeps_of_keeps hsize hkeep)

/-- A file is the patched one when the list of patches says so. -/
theorem patched_of_checks {image' : Image} (hsize_eq : image'.size = directory.image.size)
    (hwritten : ∀ x ∈ directory.rewrites base, image'.Holds x.offset x.bytes)
    (hkept : ∀ i < directory.image.size, (∀ x ∈ directory.rewrites base, ¬ x.Covers i) →
      image'.toList[i]? = directory.image.toList[i]?) :
    Patched (directory.Rewrites base) directory.image image' where
  size_eq := hsize_eq
  written x hx := hwritten x ((mem_rewrites_iff hsize).mpr hx)
  kept i hclear := by
    by_cases hi : i < directory.image.size
    · exact hkept i hi fun x hx => hclear x ((mem_rewrites_iff hsize).mp hx)
    · rw [List.getElem?_eq_none (by rw [Image.length_toList]; omega),
        List.getElem?_eq_none (by rw [Image.length_toList]; omega)]

end Lists

end DelayedDirectory

end PeCoff.Import
