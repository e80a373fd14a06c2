import Mathlib
import PeCoff.DebugInfo.Stab
import PeCoff.DebugInfo.Symbol
import PeCoff.Executable
import PeCoff.Proofs.Layout
import PeCoff.Proofs.Patch

/-!
# Records without loss

The fields of each record of fixed size with their offsets in the record, as tables of their own.
The main statement is `records_checked`: a record is decoded from every string that is not too
short, and writing its fields at their offsets gives the bytes again that it was decoded from.
-/

namespace PeCoff

/-! ## Fields -/

/-- A field of a record: where in the record its bytes lie, and what they are. -/
structure Field (α : Type) where
  offset : Nat
  width : Nat
  bytes : α → Bytes
  length_bytes : ∀ a, (bytes a).length = width

namespace Field

variable {α : Type}

/-- A little-endian number. -/
def number (offset width : Nat) (value : α → Nat) : Field α where
  offset := offset
  width := width
  bytes a := .ofLittleEndian width (value a)
  length_bytes a := Bytes.length_ofLittleEndian width (value a)

/-- One byte. -/
def u8 (offset : Nat) (value : α → UInt8) : Field α :=
  number offset 1 fun a => (value a).toNat

/-- A 16-bit number. -/
def u16 (offset : Nat) (value : α → UInt16) : Field α :=
  number offset 2 fun a => (value a).toNat

/-- A 32-bit number. -/
def u32 (offset : Nat) (value : α → UInt32) : Field α :=
  number offset 4 fun a => (value a).toNat

/-- A 64-bit number. -/
def u64 (offset : Nat) (value : α → UInt64) : Field α :=
  number offset 8 fun a => (value a).toNat

/-- Bytes that are kept as they are. -/
def array {n : Nat} (offset : Nat) (value : α → Vector UInt8 n) : Field α where
  offset := offset
  width := n
  bytes a := (value a).toList
  length_bytes a := (value a).length_toList

/-- The address of a directory and its size, each a 32-bit number. -/
def directory (offset : Nat) (value : α → DataDirectory) : Field α where
  offset := offset
  width := 8
  bytes a := .ofLittleEndian 4 (value a).address.toNat ++ .ofLittleEndian 4 (value a).size.toNat
  length_bytes a := by
    rw [List.length_append, Bytes.length_ofLittleEndian, Bytes.length_ofLittleEndian]

/-- The bytes of the field in a record, to be written at its offset. -/
def patch (a : α) (x : Field α) : Patch where
  offset := x.offset
  bytes := x.bytes a

/-- Fields follow each other without a gap from one offset to another. -/
def Follow : (start : Nat) → List (Field α) → (stop : Nat) → Prop
  | start, [], stop => start = stop
  | start, x :: fields, stop => x.offset = start ∧ Follow (start + x.width) fields stop

instance decidableFollow :
    (start : Nat) → (fields : List (Field α)) → (stop : Nat) → Decidable (Follow start fields stop)
  | start, [], stop => inferInstanceAs (Decidable (start = stop))
  | start, x :: fields, stop =>
    have := decidableFollow (start + x.width) fields stop
    inferInstanceAs (Decidable (x.offset = start ∧ Follow (start + x.width) fields stop))

/-- The bytes of a record of which some fields are given; all other bytes are zeros. -/
def serialise (size : Nat) (fields : List (Field α)) (a : α) : Bytes :=
  patchAll (fields.map (patch a)) (List.replicate size 0)

variable {start stop : Nat} {fields : List (Field α)}

/-- Fields that follow each other go forward. -/
lemma Follow.le (h : Follow start fields stop) : start ≤ stop := by
  induction fields generalizing start with
  | nil => exact h.le
  | cons x fields ih => exact Nat.le_of_add_right_le (ih h.2)

/-- Fields that follow each other are written one after the other. -/
lemma patchAll_of_follow (h : Follow start fields stop) (a : α) (front : Bytes)
    (hfront : front.length = start) :
    patchAll (fields.map (patch a)) (front ++ List.replicate (stop - start) 0) =
      front ++ fields.flatMap fun x => x.bytes a := by
  -- Each field takes the place of the first zeros that are left, and the front grows by its bytes.
  induction fields generalizing start front with
  | nil =>
    have hstop : start = stop := h
    rw [hstop, Nat.sub_self]
    rfl
  | cons x fields ih =>
    obtain ⟨hoffset, hrest⟩ := h
    have hle := hrest.le
    have hlength := x.length_bytes a
    have htake : (front ++ List.replicate (stop - start) (0 : UInt8)).take start = front :=
      List.take_left' hfront
    have hdrop : (front ++ List.replicate (stop - start) (0 : UInt8)).drop (start + x.width) =
        List.replicate (stop - (start + x.width)) 0 := by
      rw [← hfront, List.drop_append, List.drop_replicate, List.drop_eq_nil_of_le (by omega),
        List.nil_append]
      congr 1
      omega
    have hnext := ih hrest (front ++ x.bytes a) (by rw [List.length_append, hfront, hlength])
    rw [List.flatMap_cons, ← List.append_assoc, ← hnext, List.map_cons, patchAll, List.foldl_cons]
    simp only [patch, hoffset, hlength, htake, hdrop]
    rfl

/-- Fields that follow each other without a gap are written one behind the other. -/
lemma serialise_eq (h : Follow 0 fields stop) (a : α) :
    serialise stop fields a = fields.flatMap fun x => x.bytes a :=
  patchAll_of_follow h a [] rfl

end Field

/-! ## Decoders without loss -/

section

variable {α β : Type}

/-- A decoder of records of a size keeps all of their bytes: it fails for a string that is shorter,
looks at no byte behind the record, and its result has all bytes of the record in its fields. -/
structure Lossless (size : Nat) (fields : List (Field α)) (decode : Bytes → Option α) : Prop where
  eq_none_iff : ∀ bs, decode bs = none ↔ bs.length < size
  decode_append : ∀ bs rest, bs.length = size → decode (bs ++ rest) = decode bs
  serialise_eq : ∀ bs a, decode bs = some a → Field.serialise size fields a = bs.take size
  eq_of_decode_eq : ∀ bs bs', bs.length = size → bs'.length = size → decode bs = decode bs' →
    bs = bs'

/-- A decoder that keeps all bytes and reports how many are missing. -/
structure Checked (size : Nat) (fields : List (Field α)) (decode : Bytes → Except DecodeError α) :
    Prop extends Lossless size fields fun bs => (decode bs).toOption where
  error_eq : ∀ bs, bs.length < size → decode bs = .error (.tooShort size bs.length)

variable {l : Layout α} {f : α → β} {size : Nat} {fields : List (Field β)}

/-- A record is decoded without loss when its layout has the fields one after the other. -/
lemma lossless_of_map (hsize : l.size = size) (hfollow : Field.Follow 0 fields size)
    (hwrite : ∀ a, l.write a = fields.flatMap fun x => x.bytes (f a)) :
    Lossless size fields fun bs => (l.decode? bs).map f := by
  have hnone (bs : Bytes) : (l.decode? bs).map f = none ↔ bs.length < size := by
    rw [Option.map_eq_none_iff, l.decode?_eq, ite_eq_right_iff, hsize]
    simp
  have hserialise (bs : Bytes) (b : β) (hb : (l.decode? bs).map f = some b) :
      Field.serialise size fields b = bs.take size := by
    obtain ⟨a, ha, rfl⟩ := Option.map_eq_some_iff.mp hb
    rw [Field.serialise_eq hfollow, ← hwrite, ← Layout.decode?_eq_some_iff.mp ha, hsize]
  refine ⟨hnone, fun bs rest hlength => ?_, hserialise, fun bs bs' hlength hlength' heq => ?_⟩
  · rw [l.decode?_eq, l.decode?_eq, List.length_append, hsize, if_pos (by omega), if_pos hlength.ge,
      ← l.read_take (bs ++ rest) hsize.le, List.take_left' hlength]
  · cases hdecode : (l.decode? bs).map f with
    | none => exact absurd ((hnone bs).mp hdecode) (by omega)
    | some b =>
      have hbs := hserialise bs b hdecode
      have hbs' := hserialise bs' b (heq ▸ hdecode)
      rw [List.take_of_length_le hlength.le] at hbs
      rw [List.take_of_length_le hlength'.le] at hbs'
      exact hbs.symm.trans hbs'

/-- A layout whose fields follow each other without a gap is lossless. -/
lemma lossless_of_layout {fields : List (Field α)} (hsize : l.size = size)
    (hfollow : Field.Follow 0 fields size)
    (hwrite : ∀ a, l.write a = fields.flatMap fun x => x.bytes a) :
    Lossless size fields l.decode? := by
  have hlossless := lossless_of_map (f := id) hsize hfollow hwrite
  simp only [Option.map_id_fun, id_eq] at hlossless
  exact hlossless

/-- A record made of the record of a layout is decoded with its length checked. -/
lemma checked_of_map {decode : Bytes → Except DecodeError β}
    (hdecode : ∀ bs, decode bs = f <$> l.decode bs) (hsize : l.size = size)
    (hfollow : Field.Follow 0 fields size)
    (hwrite : ∀ a, l.write a = fields.flatMap fun x => x.bytes (f a)) :
    Checked size fields decode := by
  have hoption : (fun bs => (decode bs).toOption) = fun bs => (l.decode? bs).map f := by
    funext bs
    rw [hdecode, Layout.decode]
    cases l.decode? bs <;> rfl
  have hlossless := lossless_of_map hsize hfollow hwrite
  refine { toLossless := hoption ▸ hlossless, error_eq := fun bs hshort => ?_ }
  have hnone := Option.map_eq_none_iff.mp ((hlossless.eq_none_iff bs).mpr hshort)
  rw [hdecode, Layout.decode, hnone, hsize]
  rfl

/-- A record of a layout is decoded with its length checked. -/
lemma checked_of_layout {fields : List (Field α)} (hsize : l.size = size)
    (hfollow : Field.Follow 0 fields size)
    (hwrite : ∀ a, l.write a = fields.flatMap fun x => x.bytes a) :
    Checked size fields l.decode := by
  refine checked_of_map (f := id) (fun bs => ?_) hsize hfollow hwrite
  rw [id_map]

end

/-! ## The records -/

def CoffHeader.fields : List (Field CoffHeader) := [
  .u16 0 (·.machine),
  .u16 2 (·.numberOfSections),
  .u32 4 (·.timeDateStamp),
  .u32 8 (·.pointerToSymbolTable),
  .u32 12 (·.numberOfSymbols),
  .u16 16 (·.sizeOfOptionalHeader),
  .u16 18 (·.characteristics)]

def SectionHeader.fields : List (Field SectionHeader) := [
  .array 0 (·.name),
  .u32 8 (·.virtualSize),
  .u32 12 (·.virtualAddress),
  .u32 16 (·.sizeOfRawData),
  .u32 20 (·.pointerToRawData),
  .u32 24 (·.pointerToRelocations),
  .u32 28 (·.pointerToLineNumbers),
  .u16 32 (·.numberOfRelocations),
  .u16 34 (·.numberOfLineNumbers),
  .u32 36 (·.characteristics)]

def Import.Descriptor.fields : List (Field Import.Descriptor) := [
  .u32 0 (·.lookupTable),
  .u32 4 (·.timeDateStamp),
  .u32 8 (·.forwarderChain),
  .u32 12 (·.name),
  .u32 16 (·.addressTable)]

def Import.DelayedDescriptor.fields : List (Field Import.DelayedDescriptor) := [
  .u32 0 (·.attributes),
  .u32 4 (·.name),
  .u32 8 (·.moduleHandle),
  .u32 12 (·.addressTable),
  .u32 16 (·.nameTable),
  .u32 20 (·.boundAddressTable),
  .u32 24 (·.unloadTable),
  .u32 28 (·.timeDateStamp)]

def Export.Directory.fields : List (Field Export.Directory) := [
  .u32 0 (·.characteristics),
  .u32 4 (·.timeDateStamp),
  .u16 8 (·.majorVersion),
  .u16 10 (·.minorVersion),
  .u32 12 (·.libraryName),
  .u32 16 (·.base),
  .u32 20 (·.numberOfFunctions),
  .u32 24 (·.numberOfNames),
  .u32 28 (·.addressOfFunctions),
  .u32 32 (·.addressOfNames),
  .u32 36 (·.addressOfNameOrdinals)]

def DebugInfo.Directory.fields : List (Field DebugInfo.Directory) := [
  .u32 0 (·.characteristics),
  .u32 4 (·.timeDateStamp),
  .u16 8 (·.majorVersion),
  .u16 10 (·.minorVersion),
  .u32 12 (·.debugType),
  .u32 16 (·.sizeOfData),
  .u32 20 (·.addressOfRawData),
  .u32 24 (·.pointerToRawData)]

def Resource.DirectoryHeader.fields : List (Field Resource.DirectoryHeader) := [
  .u32 0 (·.characteristics),
  .u32 4 (·.timeDateStamp),
  .u16 8 (·.majorVersion),
  .u16 10 (·.minorVersion),
  .u16 12 (·.numberOfNamedEntries),
  .u16 14 (·.numberOfIdEntries)]

def Resource.DirectoryEntry.fields : List (Field Resource.DirectoryEntry) := [
  .u32 0 (·.nameOrId),
  .u32 4 (·.offsetToData)]

def Resource.DataEntry.fields : List (Field Resource.DataEntry) := [
  .u32 0 (·.offsetToData),
  .u32 4 (·.size),
  .u32 8 (·.codePage),
  .u32 12 (·.reserved)]

def Unwind.RuntimeFunction.fields : List (Field Unwind.RuntimeFunction) := [
  .u32 0 (·.start),
  .u32 4 (·.stop),
  .u32 8 (·.unwindInfo)]

/-- The addresses of the narrow form take half the bytes in the file. -/
def ThreadStorage.Directory.narrowFields : List (Field ThreadStorage.Directory) := [
  .number 0 4 (·.start.toNat),
  .number 4 4 (·.stop.toNat),
  .number 8 4 (·.index.toNat),
  .number 12 4 (·.callbacks.toNat),
  .u32 16 (·.sizeOfZeroFill),
  .u32 20 (·.characteristics)]

def ThreadStorage.Directory.wideFields : List (Field ThreadStorage.Directory) := [
  .u64 0 (·.start),
  .u64 8 (·.stop),
  .u64 16 (·.index),
  .u64 24 (·.callbacks),
  .u32 32 (·.sizeOfZeroFill),
  .u32 36 (·.characteristics)]

def CommonRuntime.fields : List (Field CommonRuntime) := [
  .u32 0 (·.size),
  .u16 4 (·.majorVersion),
  .u16 6 (·.minorVersion),
  .directory 8 (·.metadata),
  .u32 16 (·.flags),
  .u32 20 (·.entryPoint),
  .directory 24 (·.resources),
  .directory 32 (·.strongName),
  .directory 40 (·.codeManager),
  .directory 48 (·.tableFixups),
  .directory 56 (·.exportJumps),
  .directory 64 (·.nativeHeader)]

def DebugInfo.SymbolsHeader.fields : List (Field DebugInfo.SymbolsHeader) := [
  .u32 0 (·.numberOfSymbols),
  .u32 4 (·.firstSymbol),
  .u32 8 (·.numberOfLineNumbers),
  .u32 12 (·.firstLineNumber),
  .u32 16 (·.firstCodeByte),
  .u32 20 (·.lastCodeByte),
  .u32 24 (·.firstDataByte),
  .u32 28 (·.lastDataByte)]

def DebugInfo.Stab.fields : List (Field DebugInfo.Stab) := [
  .u32 0 (·.nameOffset),
  .u8 4 (·.kind),
  .u8 5 (·.other),
  .u16 6 (·.description),
  .u32 8 (·.value)]

/-- Bytes in a row are written as they are. -/
lemma Layout.write_vector_u8 {n : Nat} (v : Vector UInt8 n) :
    (u8.vector n).write v = v.toList := by
  induction n with
  | zero => exact (List.length_eq_zero_iff.mp v.length_toList).symm
  | succ n ih =>
    have hlast : u8.write v.back = [v.back] := congrArg (fun b => [b]) UInt8.ofNat_toNat
    change (u8.vector n).write v.pop ++ u8.write v.back = v.toList
    conv_rhs => rw [← v.push_pop_back, Vector.toList_push]
    rw [ih, hlast]

/-- Each record of fixed size is decoded without loss. The decoder fails exactly for the strings
that are shorter than the record, and no byte behind the record has an influence. The decoded
fields, written as little-endian numbers at their offsets, give the bytes of the record again, so
that different bytes are decoded to different records. -/
theorem records_checked :
    Checked 20 CoffHeader.fields CoffHeader.layout.decode ∧
    Checked 40 SectionHeader.fields SectionHeader.layout.decode ∧
    Checked 20 Import.Descriptor.fields Import.Descriptor.layout.decode ∧
    Checked 32 Import.DelayedDescriptor.fields Import.DelayedDescriptor.layout.decode ∧
    Checked 40 Export.Directory.fields Export.Directory.layout.decode ∧
    Checked 28 DebugInfo.Directory.fields DebugInfo.Directory.layout.decode ∧
    Checked 16 Resource.DirectoryHeader.fields Resource.DirectoryHeader.layout.decode ∧
    Checked 8 Resource.DirectoryEntry.fields Resource.DirectoryEntry.layout.decode ∧
    Checked 16 Resource.DataEntry.fields Resource.DataEntry.layout.decode ∧
    Checked 12 Unwind.RuntimeFunction.fields Unwind.RuntimeFunction.layout.decode ∧
    Checked 24 ThreadStorage.Directory.narrowFields (ThreadStorage.Directory.decode false) ∧
    Checked 40 ThreadStorage.Directory.wideFields (ThreadStorage.Directory.decode true) ∧
    Checked 72 CommonRuntime.fields CommonRuntime.layout.decode ∧
    Lossless 32 DebugInfo.SymbolsHeader.fields DebugInfo.SymbolsHeader.layout.decode? ∧
    Lossless 12 DebugInfo.Stab.fields DebugInfo.Stab.layout.decode? := by
  refine ⟨checked_of_layout (by decide) (by decide) fun _ => rfl,
    checked_of_layout (by decide) (by decide) fun s => ?sectionName,
    checked_of_layout (by decide) (by decide) fun _ => rfl,
    checked_of_layout (by decide) (by decide) fun _ => rfl,
    checked_of_layout (by decide) (by decide) fun _ => rfl,
    checked_of_layout (by decide) (by decide) fun _ => rfl,
    checked_of_layout (by decide) (by decide) fun _ => rfl,
    checked_of_layout (by decide) (by decide) fun _ => rfl,
    checked_of_layout (by decide) (by decide) fun _ => rfl,
    checked_of_layout (by decide) (by decide) fun _ => rfl,
    checked_of_map (fun _ => rfl) (by decide) (by decide) fun a => ?narrowForm,
    checked_of_layout (by decide) (by decide) fun _ => rfl,
    checked_of_layout (by decide) (by decide) fun _ => rfl,
    lossless_of_layout (by decide) (by decide) fun _ => rfl,
    lossless_of_layout (by decide) (by decide) fun _ => rfl⟩
  -- The name of a section is the one field that is written as a vector of bytes.
  case sectionName =>
    change (Layout.u8.vector 8).write s.name ++ _ = s.name.toList ++ _
    rw [Layout.write_vector_u8]
    rfl
  -- The narrow form is decoded to the wide record, whose fields are widened one by one.
  case narrowForm =>
    obtain ⟨start, stop, index, callbacks, sizeOfZeroFill, characteristics⟩ := a
    rfl

end PeCoff
