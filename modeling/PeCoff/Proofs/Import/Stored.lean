import Mathlib
import PeCoff.Import.Table
import PeCoff.Proofs.Flat
import PeCoff.Proofs.Walk

/-!
# Stored import directories

What it means that a file holds an import directory: the descriptors one after the other up to a
terminator, for each library its name and its zero-terminated array of thunks, and for each thunk
that names a function a record with the hint and the name. Nothing is said of the order in which
these lie in the file, nor of what lies between and behind them. The main statement is
`decode_of_stored`, by which a directory that is stored is decoded to what was stored.
-/

namespace PeCoff.Import

variable {image : Image} {zeroReadable wide : Bool} {address : Nat}

/-! ## What is stored -/

/-- A byte string lies in the file at an address, within the lower half of the addresses and not at
zero. -/
structure Placed (image : Image) (address : Nat) (bs : Bytes) : Prop where
  address_ne_zero : address ≠ 0
  end_le : address + bs.length ≤ 2 ^ 31
  holds : image.Holds address bs

/-- Text lies in the file at an address, with a zero behind it. -/
structure PlacedText (image : Image) (address : Nat) (s : String) : Prop where
  placed : Placed image address (Text.toUtf8 s ++ [0])
  zero_notMem : 0 ∉ Text.toUtf8 s
  length_le : (Text.toUtf8 s).length ≤ Image.maxString

/-- The highest bit of a number of a pointer's width. -/
def ordinalFlag (wide : Bool) : UInt64 :=
  if wide then 0x8000000000000000 else 0x80000000

/-- A function is stored as a number: its ordinal with the highest bit set, or the address of its
hint and its name. -/
inductive StoredThunk (image : Image) (wide : Bool) : Thunk → UInt64 → Prop
  | ordinal (ordinal : UInt16) :
      StoredThunk image wide (.ordinal ordinal) (ordinalFlag wide + ordinal.toUInt64)
  | named {hint : UInt16} {name : String} {data : UInt32}
      (hhint : Placed image data.toNat (Layout.u16.write hint))
      (hname : PlacedText image (data.toNat + 2) name) :
      StoredThunk image wide (.named hint name data) data.toUInt64

/-- Functions are stored as an array that ends at a zero. -/
inductive StoredThunks (image : Image) (wide : Bool) : (address : Nat) → List Thunk → Prop
  | nil {address : Nat} (hend : Placed image address (Memory.pointerBytes wide 0)) :
      StoredThunks image wide address []
  | cons {address : Nat} {value : UInt64} {thunk : Thunk} {thunks : List Thunk}
      (hvalue : Placed image address (Memory.pointerBytes wide value))
      (hthunk : StoredThunk image wide thunk value)
      (hrest : StoredThunks image wide (address + Memory.pointerWidth wide) thunks) :
      StoredThunks image wide address (thunk :: thunks)

/-- A library is stored: its descriptor, its name, and its functions at the lookup table, or at the
address table when there is no lookup table. -/
structure StoredLibrary (image : Image) (wide : Bool) (l : Library) : Prop where
  descriptor : Placed image l.address (Descriptor.layout.write l.descriptor)
  addressTable_ne_zero : l.descriptor.addressTable ≠ 0
  name : ∃ s, l.name = some s ∧ PlacedText image l.descriptor.name.toNat s
  thunks : ∃ thunks, l.thunks = some thunks ∧
    StoredThunks image wide (if l.descriptor.lookupTable = 0 then l.descriptor.addressTable
      else l.descriptor.lookupTable).toNat thunks

/-- Libraries are stored as an array of descriptors that ends at one without a name or without an
address table. -/
inductive StoredDirectory (image : Image) (wide : Bool) : (address : Nat) → List Library → Prop
  | nil {address : Nat} {d : Descriptor}
      (hplaced : Placed image address (Descriptor.layout.write d))
      (hend : d.name = 0 ∨ d.addressTable = 0) : StoredDirectory image wide address []
  | cons {l : Library} {libraries : List Library} (hlibrary : StoredLibrary image wide l)
      (hrest : StoredDirectory image wide (l.address + 20) libraries) :
      StoredDirectory image wide l.address (l :: libraries)

/-! ## What is read -/

/-- Placed bytes have an address. -/
lemma Placed.addressable {bs : Bytes} (h : Placed image address bs) :
    Memory.Addressable zeroReadable address :=
  .inl h.address_ne_zero

/-- The address of placed bytes has 32 bits. -/
lemma Placed.lt_addressLimit {bs : Bytes} (h : Placed image address bs) :
    address < addressLimit := by
  have hend := h.end_le
  simp only [addressLimit]
  omega

/-- A placed record is read. -/
lemma Placed.record?_eq {α : Type} {l : Layout α} {a : α} (h : Placed image address (l.write a)) :
    (Memory.flat image zeroReadable).record? l address = some a :=
  Memory.flat_record?_eq_some_iff.mpr ⟨h.addressable, h.holds⟩

/-- A placed number of a pointer's width is read. -/
lemma Placed.pointer?_eq {value : UInt64} (hfits : Memory.FitsPointer wide value)
    (h : Placed image address (Memory.pointerBytes wide value)) :
    (Memory.flat image zeroReadable).pointer? wide address = some value :=
  Memory.flat_pointer?_eq_some_iff.mpr ⟨hfits, h.addressable, h.holds⟩

/-- Placed text is read. -/
lemma PlacedText.text_eq {s : String} (h : PlacedText image address s) :
    (Memory.flat image zeroReadable).text address = some s := by
  have hend := h.placed.end_le
  rw [List.length_append] at hend
  refine Memory.flat_text_eq_some h.placed.addressable h.placed.holds h.zero_notMem h.length_le ?_
  simp only [addressLimit]
  omega

/-- The flag of an ordinal is the highest bit of its width. -/
lemma toNat_ordinalFlag (wide : Bool) :
    (ordinalFlag wide).toNat = 2 ^ (8 * Memory.pointerWidth wide - 1) := by
  cases wide <;> rfl

/-- A number that a pointer can hold has its highest bit set when it is large. -/
lemma isOrdinal_iff {value : UInt64} (hfits : Memory.FitsPointer wide value) :
    Thunk.isOrdinal wide value ↔ ordinalFlag wide ≤ value := by
  have hflag : Thunk.isOrdinal wide value = (value &&& ordinalFlag wide != 0) := by
    cases wide <;> rfl
  have hwidth : 8 * Memory.pointerWidth wide - 1 + 1 = 8 * Memory.pointerWidth wide := by
    cases wide <;> rfl
  rw [hflag, bne_iff_ne, ne_eq, ← UInt64.toNat_inj, UInt64.toNat_and, UInt64.le_iff_toNat_le,
    toNat_ordinalFlag, Nat.and_two_pow]
  constructor
  · intro hne
    apply Nat.ge_two_pow_of_testBit
    by_contra hclear
    rw [Bool.not_eq_true] at hclear
    rw [hclear, Bool.toNat_false, Nat.zero_mul] at hne
    exact hne rfl
  · intro hle
    have hbit := Nat.testBit_of_two_pow_le_and_two_pow_add_one_gt hle
      (by rw [hwidth]; exact hfits.toNat_lt)
    rw [hbit, Bool.toNat_true, Nat.one_mul]
    exact (Nat.two_pow_pos _).ne'

/-- An ordinal does not reach its flag. -/
lemma toNat_ordinalFlag_add (wide : Bool) (ordinal : UInt16) :
    (ordinalFlag wide + ordinal.toUInt64).toNat =
      (ordinalFlag wide).toNat + ordinal.toNat := by
  have hordinal := ordinal.toNat_lt
  rw [UInt64.toNat_add, UInt16.toNat_toUInt64, toNat_ordinalFlag]
  apply Nat.mod_eq_of_lt
  cases wide with
  | true => exact (show 2 ^ 63 + ordinal.toNat < 2 ^ 64 by omega)
  | false => exact (show 2 ^ 31 + ordinal.toNat < 2 ^ 64 by omega)

namespace StoredThunk

variable {thunk : Thunk} {value : UInt64}

/-- A stored thunk has the width of a pointer. -/
lemma fitsPointer (h : StoredThunk image wide thunk value) : Memory.FitsPointer wide value := by
  cases h with
  | ordinal ordinal =>
    have hordinal := ordinal.toNat_lt
    rw [Memory.FitsPointer, toNat_ordinalFlag_add, toNat_ordinalFlag]
    cases wide with
    | true => exact .inl rfl
    | false => exact .inr (show 2 ^ 31 + ordinal.toNat < 2 ^ 32 by omega)
  | @named _ _ data _ _ =>
    exact .inr (by rw [UInt32.toNat_toUInt64]; exact data.toNat_lt)

/-- A stored thunk does not end its array. -/
lemma ne_zero (h : StoredThunk image wide thunk value) : value ≠ 0 := by
  rw [ne_eq, ← UInt64.toNat_inj]
  cases h with
  | ordinal ordinal =>
    have hpos := Nat.two_pow_pos (8 * Memory.pointerWidth wide - 1)
    rw [toNat_ordinalFlag_add, toNat_ordinalFlag, UInt64.toNat_zero]
    omega
  | named hhint =>
    rw [UInt32.toNat_toUInt64]
    exact hhint.address_ne_zero

/-- A stored function is read from its number. -/
lemma decode_eq (h : StoredThunk image wide thunk value) :
    Thunk.decode (Memory.flat image zeroReadable) wide 0 value = thunk := by
  have hordinal_iff := isOrdinal_iff h.fitsPointer
  cases h with
  | ordinal ordinal =>
    have hset : Thunk.isOrdinal wide (ordinalFlag wide + ordinal.toUInt64) := by
      rw [hordinal_iff, UInt64.le_iff_toNat_le, toNat_ordinalFlag_add]
      exact Nat.le_add_right _ _
    have hlow : (ordinalFlag wide + ordinal.toUInt64).toUInt16 = ordinal := by
      rw [UInt64.toUInt16_add, UInt16.toUInt16_toUInt64]
      cases wide <;> exact UInt16.zero_add ordinal
    rw [Thunk.decode, if_pos hset, hlow]
  | @named hint name data hhint hname =>
    -- A stored name ends below the flag of an ordinal, in either width.
    have hclear : ¬ Thunk.isOrdinal wide data.toUInt64 := by
      have hend : data.toNat + 2 ≤ 2 ^ 31 := hhint.end_le
      rw [hordinal_iff, UInt64.le_iff_toNat_le, UInt32.toNat_toUInt64, toNat_ordinalFlag]
      cases wide with
      | true => exact (show ¬ 2 ^ 63 ≤ data.toNat by omega)
      | false => exact (show ¬ 2 ^ 31 ≤ data.toNat by omega)
    have hbias : (data.toUInt64 - 0).toUInt32 = data := by
      rw [UInt64.sub_zero, UInt32.toUInt32_toUInt64]
    have hfound : Thunk.hintName? (Memory.flat image zeroReadable) data.toNat =
        some (hint, name) := by
      rw [Thunk.hintName?, hhint.record?_eq, hname.text_eq]
      simp [hname.placed.lt_addressLimit]
    rw [Thunk.decode, if_neg hclear, if_pos (UInt64.zero_le), hbias, hfound]
    simp only [UInt32.toUInt32_toUInt64]

end StoredThunk

/-- A stored array is read up to its end. -/
lemma StoredThunks.walk_eq {thunks : List Thunk} (h : StoredThunks image wide address thunks) :
    walk (Memory.pointerWidth wide) (Thunk.at? (Memory.flat image zeroReadable) wide 0) address =
      thunks := by
  induction h with
  | nil hend =>
    apply walk_of_eq_none
    rw [Thunk.at?, hend.pointer?_eq (.inr (by decide))]
    rfl
  | @cons address value thunk thunks hvalue hthunk hrest ih =>
    have hwidth : 0 < Memory.pointerWidth wide := by cases wide <;> decide
    have hat : Thunk.at? (Memory.flat image zeroReadable) wide 0 address = some thunk := by
      rw [Thunk.at?, hvalue.pointer?_eq hthunk.fitsPointer]
      simp [hthunk.ne_zero, hthunk.decode_eq]
    rw [walk_of_eq_some hwidth hvalue.lt_addressLimit hat, ih]

/-- The first number of a stored array can be read. -/
lemma StoredThunks.isSome_pointer? {thunks : List Thunk}
    (h : StoredThunks image wide address thunks) :
    ((Memory.flat image zeroReadable).pointer? wide address).isSome := by
  rw [Memory.isSome_flat_pointer?]
  cases h with
  | nil hend =>
    have hle := hend.holds.end_le
    rw [Memory.length_pointerBytes] at hle
    exact ⟨hend.addressable, hle⟩
  | cons hvalue =>
    have hle := hvalue.holds.end_le
    rw [Memory.length_pointerBytes] at hle
    exact ⟨hvalue.addressable, hle⟩

/-- Stored thunks are decoded. -/
lemma StoredThunks.array_eq {thunks : List Thunk} (h : StoredThunks image wide address thunks) :
    Thunk.array (Memory.flat image zeroReadable) wide 0 address = some thunks := by
  obtain ⟨first, hfirst⟩ := Option.isSome_iff_exists.mp h.isSome_pointer?
  rw [Thunk.array, hfirst, h.walk_eq]
  rfl

/-- A stored library is read at its descriptor. -/
lemma StoredLibrary.at?_eq {l : Library} (h : StoredLibrary image wide l) :
    Library.at? (Memory.flat image zeroReadable) wide l.address = some l := by
  obtain ⟨name, hname, hname_placed⟩ := h.name
  obtain ⟨thunks, hthunks, hthunks_stored⟩ := h.thunks
  have hlookup : l.descriptor.lookupAddress = if l.descriptor.lookupTable = 0 then
      l.descriptor.addressTable else l.descriptor.lookupTable := by
    rw [Descriptor.lookupAddress, ite_not]
  have hname_ne_zero : l.descriptor.name ≠ 0 := by
    intro hzero
    rw [hzero] at hname_placed
    exact hname_placed.placed.address_ne_zero rfl
  have hgoes_on : l.descriptor.isTerminator = false := by
    simp [Descriptor.isTerminator, hname_ne_zero, h.addressTable_ne_zero]
  rw [Library.at?, h.descriptor.record?_eq, Option.bind_eq_bind, Option.bind_some, hgoes_on,
    hname_placed.text_eq, hlookup, hthunks_stored.array_eq, ← hname, ← hthunks]
  rfl

/-- A stored directory is read up to its terminator. -/
lemma StoredDirectory.walk_eq {libraries : List Library}
    (h : StoredDirectory image wide address libraries) :
    walk Descriptor.layout.size (Library.at? (Memory.flat image zeroReadable) wide) address =
      libraries := by
  induction h with
  | nil hplaced hend =>
    apply walk_of_eq_none
    rw [Library.at?, hplaced.record?_eq]
    cases hend with
    | inl hname => simp [Descriptor.isTerminator, hname]
    | inr htable => simp [Descriptor.isTerminator, htable]
  | cons hlibrary hrest ih =>
    rw [walk_of_eq_some (by decide) hlibrary.descriptor.lt_addressLimit hlibrary.at?_eq]
    exact congrArg _ ih

/-- The descriptors of a stored directory lie one after the other. -/
lemma StoredDirectory.address_eq {libraries : List Library}
    (h : StoredDirectory image wide address libraries) {k : Nat} {l : Library}
    (hl : libraries[k]? = some l) : l.address = address + 20 * k := by
  induction h generalizing k with
  | nil => cases hl
  | cons _ _ ih =>
    cases k with
    | zero => rw [Option.some.inj hl]; rfl
    | succ k =>
      rw [ih hl]
      omega

end PeCoff.Import
