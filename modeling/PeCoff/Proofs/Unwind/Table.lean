import Mathlib
import PeCoff.Unwind.Table
import PeCoff.Proofs.Flat
import PeCoff.Proofs.Layout
import PeCoff.Proofs.Unwind.Codes

/-!
# Stored unwind information

Unwind information is stored as a header of four bytes, the slots of the unwind codes, one more slot
when their number is odd, and a trailer. The main statement is `forall₂_describes_decodeTable`: each
function of an exception directory is decoded to one entry, which tells what the memory holds where
the function points to.
-/

namespace PeCoff.Unwind

variable {image : Image} {zeroReadable : Bool} {memory : Memory} {f : RuntimeFunction} {i : Info}
  {trailer : Trailer} {address : UInt32} {flags low high version prolog count frame : UInt8}
  {place k : Nat} {slots padding : List Slot}

/-! ## What is stored -/

namespace Trailer

/-- The bytes of a trailer. -/
def bytes : Trailer → Bytes
  | chain f => RuntimeFunction.layout.write f
  | handler address _ => Layout.u32.write address
  | none => []
  | unavailable => []

/-- A trailer is one that flags declare: a function when bit two is set, else a handler when bit
zero or bit one is set, else nothing. The data of a handler lies behind it, at an address of 32
bits. -/
inductive Declared (flags : UInt8) (place : Nat) : Trailer → Prop
  | chain (f : RuntimeFunction) (h : flags.toNat.testBit 2 = true) :
    Declared flags place (.chain f)
  | handler (address data : UInt32) (hchain : flags.toNat.testBit 2 = false)
      (h : flags.toNat.testBit 0 = true ∨ flags.toNat.testBit 1 = true)
      (hdata : data.toNat = place + 4) : Declared flags place (.handler address data)
  | none (hchain : flags.toNat.testBit 2 = false) (hexception : flags.toNat.testBit 0 = false)
      (htermination : flags.toNat.testBit 1 = false) : Declared flags place .none

end Trailer

/-- The bytes of the header of unwind information. -/
def Info.headerBytes (i : Info) : Bytes :=
  [i.version + 8 * i.flags, i.sizeOfProlog, i.slotCount, i.frameRegister + 16 * i.frameOffset]

/-- Unwind information of the first version is stored at a place, with slots of its codes and
padding that makes their number even. -/
structure StoredInfo (image : Image) (place : Nat) (i : Info) (slots padding : List Slot) :
    Prop where
  version : i.version = 1
  flags_lt : i.flags.toNat < 32
  frameRegister_lt : i.frameRegister.toNat < 16
  frameOffset_lt : i.frameOffset.toNat < 16
  slotCount : i.slotCount.toNat = slots.length
  length_padding : padding.length = slots.length % 2
  codes : Code.decode slots = (i.codes, i.truncated)
  trailer : i.trailer.Declared i.flags (place + 4 + 2 * (slots ++ padding).length)
  holds : image.Holds place
    (i.headerBytes ++ (slots ++ padding).flatMap Slot.bytes ++ i.trailer.bytes)

/-- The slots behind a header at a place do not lie in memory. Addresses wrap, so that behind a
header in the last four bytes of them there must be none at address zero either. -/
def SlotsMissing (image : Image) (zeroReadable : Bool) (place count : Nat) : Prop :=
  image.size < place + 4 + 2 * count ∧
    (place + 4 = addressLimit → Memory.flat image zeroReadable 0 (2 * count) = none)

/-- What a function leads to is told by what a memory holds where the function points to. -/
structure Describes (image : Image) (zeroReadable : Bool) (f : RuntimeFunction) (d : Detail) :
    Prop where
  /-- An odd address is that of another function. -/
  chained : f.unwindInfo.toNat % 2 = 1 → ∃ target, d = .chained target ∧ ∀ g, target = some g ↔
    Memory.Addressable zeroReadable (f.unwindInfo.toNat - 1) ∧
      image.Holds (f.unwindInfo.toNat - 1) (RuntimeFunction.layout.write g)
  noHeader : f.unwindInfo.toNat % 2 = 0 →
    Memory.flat image zeroReadable f.unwindInfo.toNat 4 = none → d = .unavailable
  unknownVersion : f.unwindInfo.toNat % 2 = 0 → ∀ version prolog count frame,
    Memory.flat image zeroReadable f.unwindInfo.toNat 4 = some [version, prolog, count, frame] →
    version.toNat % 8 ≠ 1 → d = .unknownVersion (UInt8.ofNat (version.toNat % 8))
  noSlots : f.unwindInfo.toNat % 2 = 0 → ∀ version prolog count frame,
    Memory.flat image zeroReadable f.unwindInfo.toNat 4 = some [version, prolog, count, frame] →
    version.toNat % 8 = 1 → count ≠ 0 →
    SlotsMissing image zeroReadable f.unwindInfo.toNat count.toNat → d = .unavailable
  info : f.unwindInfo.toNat % 2 = 0 → Memory.Addressable zeroReadable f.unwindInfo.toNat →
    ∀ i slots padding, StoredInfo image f.unwindInfo.toNat i slots padding → d = .info i

/-! ## Bits -/

/-- Two fields of a byte, of which the lower one has `k` bits. -/
lemma fields_of_byte (hk : k < 8) (hlow : low.toNat < 2 ^ k) (hhigh : high.toNat < 2 ^ (8 - k)) :
    (low + UInt8.ofNat (2 ^ k) * high) &&& UInt8.ofNat (2 ^ k - 1) = low ∧
      (low + UInt8.ofNat (2 ^ k) * high) >>> UInt8.ofNat k = high := by
  have hpow : 2 ^ k * 2 ^ (8 - k) = 2 ^ 8 := by
    rw [← Nat.pow_add, Nat.add_sub_of_le hk.le]
  have hlt : 2 ^ k < 2 ^ 8 := Nat.pow_lt_pow_right (by decide) hk
  have hsum : low.toNat + 2 ^ k * high.toNat < 2 ^ 8 := by
    have hmul : 2 ^ k * (high.toNat + 1) ≤ 2 ^ k * 2 ^ (8 - k) := Nat.mul_le_mul_left _ hhigh
    rw [Nat.mul_succ] at hmul
    omega
  have hbyte : (low + UInt8.ofNat (2 ^ k) * high).toNat = low.toNat + 2 ^ k * high.toNat := by
    rw [UInt8.toNat_add, UInt8.toNat_mul, UInt8.toNat_ofNat_of_lt' hlt, Nat.add_mod_mod,
      Nat.mod_eq_of_lt hsum]
  have hmask : (UInt8.ofNat (2 ^ k - 1)).toNat = 2 ^ k - 1 :=
    UInt8.toNat_ofNat_of_lt' (by simp only [UInt8.size]; omega)
  have hshift : (UInt8.ofNat k).toNat = k :=
    UInt8.toNat_ofNat_of_lt' (by simp only [UInt8.size]; omega)
  constructor
  · rw [← UInt8.toNat_inj, UInt8.toNat_and, hbyte, hmask, Nat.and_two_pow_sub_one_eq_mod,
      Nat.add_mul_mod_self_left, Nat.mod_eq_of_lt hlow]
  · rw [← UInt8.toNat_inj, UInt8.toNat_shiftRight, hbyte, hshift, Nat.mod_eq_of_lt hk,
      Nat.shiftRight_eq_div_pow, Nat.add_mul_div_left _ _ (Nat.two_pow_pos k),
      Nat.div_eq_of_lt hlow, Nat.zero_add]

/-- The version of a header is in the lowest three bits of its first byte. -/
lemma toNat_and_seven (b : UInt8) : (b &&& 7).toNat = b.toNat % 8 := by
  rw [UInt8.toNat_and]
  exact Nat.and_two_pow_sub_one_eq_mod b.toNat 3

/-- A flag is a bit of the flags. -/
lemma hasFlag_eq (flags : UInt8) (hk : k < 8) :
    Info.hasFlag flags (UInt8.ofNat (2 ^ k)) = flags.toNat.testBit k := by
  have hlt : 2 ^ k < 2 ^ 8 := Nat.pow_lt_pow_right (by decide) hk
  rw [Info.hasFlag, Bool.eq_iff_iff, bne_iff_ne, ne_eq, ← UInt8.toNat_inj, UInt8.toNat_and,
    UInt8.toNat_ofNat_of_lt' hlt, Nat.and_two_pow]
  cases flags.toNat.testBit k with
  | true => simp
  | false => simp

/-- The third flag declares a chained function. -/
lemma hasFlag_chainFlag (flags : UInt8) :
    Info.hasFlag flags Info.chainFlag = flags.toNat.testBit 2 :=
  hasFlag_eq (k := 2) flags (by decide)

/-- Each of the first two flags declares a handler. -/
lemma declaresHandler_eq (flags : UInt8) :
    Info.declaresHandler flags = (flags.toNat.testBit 0 || flags.toNat.testBit 1) := by
  rw [← hasFlag_eq flags (k := 0) (by decide), ← hasFlag_eq flags (k := 1) (by decide)]
  rfl

/-- The lowest bit of an address makes it that of another function. -/
lemma isChained_iff : f.isChained ↔ f.unwindInfo.toNat % 2 = 1 := by
  have hone : (1 : UInt32).toNat = 1 := rfl
  rw [RuntimeFunction.isChained, bne_iff_ne, ne_eq, ← UInt32.toNat_inj, UInt32.toNat_and, hone,
    Nat.and_one_is_mod, UInt32.toNat_zero]
  omega

/-- The function that a chained one refers to lies at the address without its lowest bit. -/
lemma toNat_chainAddress (h : f.unwindInfo.toNat % 2 = 1) :
    f.chainAddress.toNat = f.unwindInfo.toNat - 1 := by
  have hlt := f.unwindInfo.toNat_lt
  have hmask : (~~~1 : UInt32).toNat = 2 * (2 ^ 31 - 1) := rfl
  rw [RuntimeFunction.chainAddress, UInt32.toNat_and, hmask]
  generalize f.unwindInfo.toNat = n at h hlt
  have hhalf : (n &&& 2 * (2 ^ 31 - 1)) / 2 = n / 2 := by
    rw [Nat.and_div_two, Nat.mul_div_cancel_left _ Nat.two_pos, Nat.and_two_pow_sub_one_eq_mod,
      Nat.mod_eq_of_lt (by omega)]
  have heven : (n &&& 2 * (2 ^ 31 - 1)) % 2 = 0 := by
    rw [← Nat.and_one_is_mod, Nat.and_assoc]
    exact Nat.and_zero n
  omega

/-! ## What is read -/

/-- What the header of unwind information leads to. -/
lemma infoAt_of_header (h : memory address.toNat 4 = some [version, prolog, count, frame]) :
    Detail.infoAt memory address =
      if version &&& 7 ≠ 1 then .unknownVersion (version &&& 7)
      else match Detail.slotsAt memory (address + 4) count with
        | none => .unavailable
        | some slots => .info {
            version := version &&& 7
            flags := version >>> 3
            sizeOfProlog := prolog
            slotCount := count
            frameRegister := frame &&& 15
            frameOffset := frame >>> 4
            codes := (Code.decode slots).1
            truncated := (Code.decode slots).2
            trailer := Detail.trailerAt memory (version >>> 3)
              (address + 4 + UInt32.ofNat (trailerSlot count * 2)) } := by
  have hheader : memory address.toNat Info.headerSize = some [version, prolog, count, frame] := h
  rw [Detail.infoAt, hheader]
  rfl

/-- A stored trailer is read where it lies. -/
lemma trailerAt_of_declared (h : trailer.Declared flags place)
    (hplace : Memory.Addressable zeroReadable place) (hholds : image.Holds place trailer.bytes)
    (hsize : image.size ≤ addressLimit) :
    Detail.trailerAt (.flat image zeroReadable) flags (UInt32.ofNat place) = trailer := by
  -- A trailer that takes any bytes starts below the limit of the addresses.
  have htoNat (hpos : 0 < trailer.bytes.length) : (UInt32.ofNat place).toNat = place := by
    have hend := hholds.end_le
    exact UInt32.toNat_ofNat_of_lt' (by simp only [UInt32.size, addressLimit] at *; omega)
  rw [Detail.trailerAt, hasFlag_chainFlag, declaresHandler_eq]
  cases h with
  | chain f hchain =>
    have hread := Memory.flat_record?_eq_some_iff.mpr ⟨hplace, hholds⟩
    rw [if_pos hchain, htoNat (by rw [Trailer.bytes, Layout.length_write]; decide), hread]
  | handler handler data hchain hhandler hdata =>
    have hbehind : UInt32.ofNat place + 4 = data := by
      rw [← UInt32.ofNat_toNat (x := data), hdata, UInt32.ofNat_add]
      rfl
    have hread := Memory.flat_record?_eq_some_iff.mpr ⟨hplace, hholds⟩
    have hflags : (flags.toNat.testBit 0 || flags.toNat.testBit 1) = true := by
      rwa [Bool.or_eq_true]
    rw [if_neg (by rw [hchain]; exact Bool.false_ne_true), if_pos hflags,
      htoNat (by rw [Trailer.bytes, Layout.length_write]; decide), hread, hbehind]
  | none hchain hexception htermination =>
    rw [hchain, hexception, htermination]
    rfl

/-- Stored slots are read behind the header. No slots need no memory. -/
lemma slotsAt_of_holds (hplace : Memory.Addressable zeroReadable address.toNat)
    (hcount : count.toNat = slots.length)
    (hholds : image.Holds (address.toNat + 4) (slots.flatMap Slot.bytes))
    (hsize : image.size ≤ addressLimit) :
    Detail.slotsAt (.flat image zeroReadable) (address + 4) count = some slots := by
  have hfour : (4 : UInt32).toNat = 4 := rfl
  have hlength : (slots.flatMap Slot.bytes).length = count.toNat * 2 := by
    rw [Slot.length_flatMap_bytes, hcount, Nat.mul_comm]
  rw [Detail.slotsAt]
  by_cases hzero : count = 0
  · rw [hzero] at hcount
    rw [if_pos hzero, List.length_eq_zero_iff.mp hcount.symm]
  · have hpos : count.toNat ≠ 0 := fun h => hzero (UInt8.toNat_inj.mp h)
    have hend := hholds.end_le
    have haddress : (address + 4).toNat = address.toNat + 4 := by
      simp only [addressLimit] at hsize
      rw [UInt32.toNat_add, hfour, Nat.mod_eq_of_lt (by omega)]
    have hread := Memory.flat_of_holds (hplace.add 4) hholds
    rw [if_neg hzero, haddress, ← hlength, hread, Option.map_some, Option.some_inj,
      Slot.ofBytes_eq_iff]
    exact ⟨[], by decide, (List.append_nil _).symm⟩

/-- Missing slots are not read. -/
lemma slotsAt_of_missing (hcount : count ≠ 0) (hend : address.toNat + 4 ≤ addressLimit)
    (h : SlotsMissing image zeroReadable address.toNat count.toNat) :
    Detail.slotsAt (.flat image zeroReadable) (address + 4) count = none := by
  have hfour : (4 : UInt32).toNat = 4 := rfl
  rw [Detail.slotsAt, if_neg hcount, Nat.mul_comm, Option.map_eq_none_iff, UInt32.toNat_add, hfour]
  by_cases hlimit : address.toNat + 4 = addressLimit
  · rw [hlimit]
    exact h.2 hlimit
  · simp only [addressLimit] at hend hlimit
    rw [Nat.mod_eq_of_lt (by omega), ← Option.not_isSome_iff_eq_none, Memory.isSome_flat]
    exact fun hread => absurd hread.2 (not_le.mpr h.1)

/-- Stored unwind information is read where it lies. -/
lemma StoredInfo.infoAt_eq (h : StoredInfo image address.toNat i slots padding)
    (hplace : Memory.Addressable zeroReadable address.toNat)
    (hsize : image.size ≤ addressLimit) :
    Detail.infoAt (.flat image zeroReadable) address = .info i := by
  obtain ⟨hfront, htrailer⟩ := Image.holds_append_iff.mp h.holds
  obtain ⟨hheader, hslots⟩ := Image.holds_append_iff.mp hfront
  have hheader_length : i.headerBytes.length = 4 := rfl
  rw [List.length_append, hheader_length, Slot.length_flatMap_bytes, ← Nat.add_assoc] at htrailer
  rw [hheader_length, List.flatMap_append] at hslots
  have hread : Memory.flat image zeroReadable address.toNat 4 =
      some [i.version + 8 * i.flags, i.sizeOfProlog, i.slotCount,
        i.frameRegister + 16 * i.frameOffset] := Memory.flat_of_holds hplace hheader
  -- Both parts of a byte are got back from their sum, by a mask and by a shift.
  have hversion_lt : i.version.toNat < 2 ^ 3 := by rw [h.version]; decide
  obtain ⟨hversion, hflags⟩ := fields_of_byte (k := 3) (by decide) hversion_lt h.flags_lt
  have hversion : (i.version + 8 * i.flags) &&& 7 = i.version := hversion
  have hflags : (i.version + 8 * i.flags) >>> 3 = i.flags := hflags
  obtain ⟨hregister, hoffset⟩ := fields_of_byte (k := 4) (by decide) h.frameRegister_lt
    h.frameOffset_lt
  have hregister : (i.frameRegister + 16 * i.frameOffset) &&& 15 = i.frameRegister := hregister
  have hoffset : (i.frameRegister + 16 * i.frameOffset) >>> 4 = i.frameOffset := hoffset
  -- The padding makes the number of slots even; the address may wrap on the way.
  have hplace_trailer : address + 4 + UInt32.ofNat (trailerSlot i.slotCount * 2) =
      UInt32.ofNat (address.toNat + 4 + 2 * (slots ++ padding).length) := by
    have hslot : trailerSlot i.slotCount = (slots ++ padding).length := by
      rw [trailerSlot, List.length_append, h.length_padding, h.slotCount]
      omega
    rw [hslot, Nat.mul_comm 2, UInt32.ofNat_add, UInt32.ofNat_add, UInt32.ofNat_toNat]
    rfl
  have htrailer := trailerAt_of_declared h.trailer
    ((hplace.add 4).add (2 * (slots ++ padding).length)) htrailer hsize
  have hslots := slotsAt_of_holds hplace h.slotCount (Image.holds_append_iff.mp hslots).1 hsize
  rw [infoAt_of_header hread, hversion, if_neg (not_not.mpr h.version), hslots]
  simp only
  rw [hflags, hregister, hoffset, hplace_trailer, htrailer, h.codes]

/-! ## Entries -/

/-- What a function leads to is described. -/
lemma describes_ofFunction (hsize : image.size ≤ addressLimit) (f : RuntimeFunction) :
    Describes image zeroReadable f (Detail.ofFunction (.flat image zeroReadable) f) := by
  -- The lowest bit marks a chained function; an even address is one of a record.
  have hdirect (heven : f.unwindInfo.toNat % 2 = 0) :
      Detail.ofFunction (.flat image zeroReadable) f =
        Detail.infoAt (.flat image zeroReadable) f.unwindInfo := by
    rw [Detail.ofFunction, if_neg]
    rw [isChained_iff]
    omega
  refine ⟨fun hodd => ?chained, fun heven hnone => ?noHeader,
    fun heven version prolog count frame hheader hversion => ?unknownVersion,
    fun heven version prolog count frame hheader hversion hcount hmissing => ?noSlots,
    fun heven hplace i slots padding hstored => ?info⟩
  case chained =>
    refine ⟨_, by rw [Detail.ofFunction, if_pos (isChained_iff.mpr hodd)], fun g => ?_⟩
    rw [toNat_chainAddress hodd]
    exact Memory.flat_record?_eq_some_iff
  case noHeader =>
    have hnone : Memory.flat image zeroReadable f.unwindInfo.toNat Info.headerSize = none := hnone
    rw [hdirect heven, Detail.infoAt, hnone]
  case unknownVersion =>
    -- The version is masked where the description takes a remainder.
    have hand : version &&& 7 = UInt8.ofNat (version.toNat % 8) := by
      rw [← toNat_and_seven, UInt8.ofNat_toNat]
    have hne : version &&& 7 ≠ 1 := by
      rw [ne_eq, ← UInt8.toNat_inj, toNat_and_seven]
      exact hversion
    rw [hdirect heven, infoAt_of_header hheader, if_pos hne, hand]
  case noSlots =>
    have hand : version &&& 7 = 1 := by
      rw [← UInt8.toNat_inj, toNat_and_seven]
      exact hversion
    have hend : f.unwindInfo.toNat + 4 ≤ image.size :=
      (Memory.isSome_flat.mp (Option.isSome_of_eq_some hheader)).2
    rw [hdirect heven, infoAt_of_header hheader, if_neg (not_not.mpr hand),
      slotsAt_of_missing hcount (hend.trans hsize) hmissing]
  case info => rw [hdirect heven, hstored.infoAt_eq hplace hsize]

/-- Each function of an exception directory is decoded to one entry, in order, whatever shorter rest
follows the functions. The entry tells what a memory of any size up to the limit of the addresses
holds where the function points to: with an odd address another function, or nothing when it cannot
be read; else unavailable information when its header or its slots cannot be read, or the version
when it is not the first one; and for stored information of the first version its header, the codes
of its slots, and the trailer that its flags declare. Two cases are left out, both at the end of a
memory of all addresses: slots that would start behind the last address, while there are bytes at
address zero, and a handler in the last four bytes. -/
theorem forall₂_describes_decodeTable (image : Image) (zeroReadable : Bool)
    (hsize : image.size ≤ addressLimit) (functions : List RuntimeFunction) (stray : Bytes)
    (hstray : stray.length < 12) :
    List.Forall₂ (fun f entry => entry.function = f ∧ Describes image zeroReadable f entry.detail)
      functions (decodeTable (.flat image zeroReadable)
        (functions.flatMap RuntimeFunction.layout.write ++ stray)) := by
  have hdecode : RuntimeFunction.layout.decodeAll
      (functions.flatMap RuntimeFunction.layout.write ++ stray) = functions :=
    (Layout.decodeAll_eq_iff_append (by decide)).mpr ⟨stray, hstray, rfl⟩
  rw [decodeTable, hdecode, List.forall₂_map_right_iff, List.forall₂_same]
  exact fun f _ => ⟨rfl, describes_ofFunction hsize f⟩

/-- The memory of all addresses that holds only zeros up to some bytes at its end. -/
def fullImage (bs : Bytes) : Image :=
  .ofList (List.replicate (addressLimit - bs.length) 0 ++ bs)

/-- A full image has a byte at each address. -/
lemma size_fullImage {bs : Bytes} (h : bs.length ≤ addressLimit) :
    (fullImage bs).size = addressLimit := by
  rw [fullImage, Image.size_ofList, List.length_append, List.length_replicate]
  omega

/-- A full image ends with the given bytes. -/
lemma holds_fullImage_end {bs : Bytes} (h : place + bs.length = addressLimit) :
    (fullImage bs).Holds place bs := by
  have hplace : addressLimit - bs.length = place := by omega
  rw [fullImage, hplace]
  have hholds := Image.holds_ofList (List.replicate place 0) bs []
  rwa [List.length_replicate, List.append_nil] at hholds

/-- A full image starts with zeros. -/
lemma holds_fullImage_start {bs : Bytes} {n : Nat} (h : n + bs.length ≤ addressLimit) :
    (fullImage bs).Holds 0 (List.replicate n 0) := by
  have hn : addressLimit - bs.length = n + (addressLimit - bs.length - n) := by omega
  rw [fullImage, hn, List.replicate_add, List.append_assoc]
  exact Image.holds_ofList [] (List.replicate n 0) _

/-- Unwind information that declares a handler, and the address of that handler. Read by itself, the
address is unwind information as well, which declares one slot. -/
def endBytes : Bytes :=
  [9, 0, 0, 0] ++ Layout.u32.write 0x10001

/-- Functions whose unwind information lies in the last four and in the last eight bytes. -/
def endFunctions : List RuntimeFunction :=
  [⟨0x1000, 0x1010, 0xFFFFFFFC⟩, ⟨0x1000, 0x1010, 0xFFFFFFF8⟩]

/-- A slot that would start behind the last address is read at address zero. -/
lemma exists_infoAt_unslotted (hheader : memory 0xFFFFFFFC 4 = some [1, 0, 1, 0])
    (hslots : memory 0 2 = some [0, 0]) : ∃ i, Detail.infoAt memory 0xFFFFFFFC = .info i := by
  have hslots : Detail.slotsAt memory (0xFFFFFFFC + 4) 1 = some (Slot.ofBytes [0, 0]) :=
    congrArg (Option.map Slot.ofBytes) hslots
  rw [infoAt_of_header hheader, if_neg (by decide), hslots]
  exact ⟨_, rfl⟩

/-- The data of a handler in the last four bytes is said to be at address zero. -/
lemma exists_infoAt_handled (hheader : memory 0xFFFFFFF8 4 = some [9, 0, 0, 0])
    (hhandler : memory.record? .u32 0xFFFFFFFC = some 0x10001) :
    ∃ i, Detail.infoAt memory 0xFFFFFFF8 = .info i ∧ i.trailer = .handler 0x10001 0 := by
  have htrailer : Detail.trailerAt memory 1 0xFFFFFFFC = .handler 0x10001 0 := by
    have hplace : (0xFFFFFFFC : UInt32).toNat = 0xFFFFFFFC := rfl
    rw [Detail.trailerAt, if_neg (by decide), if_pos (by decide), hplace, hhandler]
    rfl
  rw [infoAt_of_header hheader, if_neg (by decide)]
  exact ⟨_, rfl, htrailer⟩

/-- At the end of a memory of all addresses the information is not what is stored there. A header in
the last four bytes declares a slot, which cannot be read, yet there is information, with a slot
from address zero. Another header declares a handler, which is in the last four bytes, yet the data
behind it is said to be at address zero. -/
theorem exists_not_describes :
    (fullImage endBytes).size ≤ addressLimit ∧
    Memory.flat (fullImage endBytes) true 0xFFFFFFFC 4 = some [1, 0, 1, 0] ∧
    Memory.flat (fullImage endBytes) true (0xFFFFFFFC + 4) 2 = none ∧
    (fullImage endBytes).Holds 0xFFFFFFF8 ([9, 0, 0, 0] ++ Layout.u32.write 0x10001) ∧
    ∃ unslotted handled : Info,
      (decodeTable (.flat (fullImage endBytes) true)
        (endFunctions.flatMap RuntimeFunction.layout.write)).map Entry.detail =
          [.info unslotted, .info handled] ∧
      handled.trailer = .handler 0x10001 0 := by
  have hsize : (fullImage endBytes).size = addressLimit := size_fullImage (by decide)
  have hend : (fullImage endBytes).Holds 0xFFFFFFF8 endBytes := holds_fullImage_end (by decide)
  have hstart : (fullImage endBytes).Holds 0 [0, 0] := holds_fullImage_start (n := 2) (by decide)
  -- The memory is never evaluated: from here on it is known only by what it holds at its two ends.
  generalize fullImage endBytes = image at hsize hend hstart ⊢
  obtain ⟨hfirst, hlast⟩ := Image.holds_append_iff.mp hend
  have hlast : image.Holds 0xFFFFFFFC (Layout.u32.write 0x10001) := hlast
  have hbehind : Memory.flat image true (0xFFFFFFFC + 4) 2 = none := by
    rw [← Option.not_isSome_iff_eq_none, Memory.isSome_flat, hsize]
    exact fun h => absurd h.2 (by decide)
  have hread {place : Nat} {bs : Bytes} (h : image.Holds place bs) :
      Memory.flat image true place bs.length = some bs :=
    Memory.flat_of_holds (.inr rfl) h
  have hslots : Memory.flat image true 0 2 = some [0, 0] := hread hstart
  have hunslotted : Memory.flat image true 0xFFFFFFFC 4 = some [1, 0, 1, 0] := hread hlast
  have hhandled : Memory.flat image true 0xFFFFFFF8 4 = some [9, 0, 0, 0] := hread hfirst
  have hhandler : (Memory.flat image true).record? .u32 0xFFFFFFFC = some 0x10001 :=
    Memory.flat_record?_eq_some_iff.mpr ⟨.inr rfl, hlast⟩
  refine ⟨hsize.le, hunslotted, hbehind, hend, ?_⟩
  generalize Memory.flat image true = memory at hslots hunslotted hhandled hhandler ⊢
  have hdecode : RuntimeFunction.layout.decodeAll
      (endFunctions.flatMap RuntimeFunction.layout.write) = endFunctions :=
    (Layout.decodeAll_eq_iff_append (by decide)).mpr ⟨[], by decide, (List.append_nil _).symm⟩
  obtain ⟨unslotted, hunslotted⟩ := exists_infoAt_unslotted hunslotted hslots
  obtain ⟨handled, hhandled, htrailer⟩ := exists_infoAt_handled hhandled hhandler
  have hfour : Detail.ofFunction memory ⟨0x1000, 0x1010, 0xFFFFFFFC⟩ = .info unslotted :=
    (if_neg (by decide)).trans hunslotted
  have height : Detail.ofFunction memory ⟨0x1000, 0x1010, 0xFFFFFFF8⟩ = .info handled :=
    (if_neg (by decide)).trans hhandled
  refine ⟨unslotted, handled, ?_, htrailer⟩
  rw [decodeTable, hdecode]
  simp only [endFunctions, List.map_cons, List.map_nil, hfour, height]

/-- Unwind information that declares both a handler and a function, which takes precedence. Its one
slot is that of a small allocation. -/
def sampleInfo : Info where
  version := 1
  flags := 5
  sizeOfProlog := 6
  slotCount := 1
  frameRegister := 5
  frameOffset := 2
  codes := [⟨6, .allocate 48⟩]
  truncated := false
  trailer := .chain ⟨0x1000, 0x1010, 0x40⟩

/-- A file with unwind information at address four, a header of the second version behind it, and at
its end a header whose slots are missing. -/
def sampleImage : Image :=
  .ofList ([0, 0, 0, 0] ++ [0x29, 6, 1, 0x25, 6, 0x52, 0, 0] ++
    RuntimeFunction.layout.write ⟨0x1000, 0x1010, 0x40⟩ ++ [2, 0, 0, 0] ++ [1, 0, 9, 0])

/-- Functions with direct and with odd unwind addresses, inside and outside of the sample file. -/
def sampleFunctions : List RuntimeFunction :=
  [⟨0x1010, 0x1020, 4⟩, ⟨0x1020, 0x1030, 5⟩, ⟨0x1030, 0x1040, 24⟩, ⟨0x1040, 0x1050, 28⟩,
    ⟨0x1050, 0x1060, 64⟩, ⟨0x1060, 0x1070, 65⟩]

/-- The sample image stores the sample information with its slots. -/
lemma storedInfo_sampleInfo : StoredInfo sampleImage 4 sampleInfo [⟨6, 0x52⟩] [⟨0, 0⟩] where
  version := rfl
  flags_lt := by decide
  frameRegister_lt := by decide
  frameOffset_lt := by decide
  slotCount := rfl
  length_padding := rfl
  codes := by
    have hcode : Code.WrittenAs ⟨6, .allocate 48⟩ [.first 6 2 5] := .intro (.allocateSmall 5)
    have hdecode := hcode.decode_append []
    rwa [Code.decode_nil] at hdecode
  trailer := .chain _ rfl
  holds := by decide +kernel

/-- In the sample file the functions lead to unwind information, to another function, to a version
that is not known, twice to nothing, and to a function that cannot be read. -/
theorem forall₂_describes_decodeTable_sample :
    sampleImage.size ≤ addressLimit ∧
    (decodeTable (.flat sampleImage false)
      (sampleFunctions.flatMap RuntimeFunction.layout.write ++ [1, 2, 3])).map Entry.detail =
    [.info sampleInfo, .chained (some ⟨0x25010629, 0x5206, 0x1000⟩), .unknownVersion 2, .unavailable,
      .unavailable, .chained none] := by
  have hsize : sampleImage.size ≤ addressLimit := by decide +kernel
  have htable := forall₂_describes_decodeTable sampleImage false hsize sampleFunctions [1, 2, 3]
    (by decide)
  generalize decodeTable (.flat sampleImage false)
    (sampleFunctions.flatMap RuntimeFunction.layout.write ++ [1, 2, 3]) = entries at htable ⊢
  simp only [sampleFunctions, List.forall₂_cons_left_iff, List.forall₂_nil_left_iff] at htable
  obtain ⟨info, _, ⟨-, hinfo⟩, ⟨other, _, ⟨-, hother⟩, ⟨version, _, ⟨-, hversion⟩,
    ⟨slots, _, ⟨-, hslots⟩, ⟨header, _, ⟨-, hheader⟩, ⟨last, _, ⟨-, hlast⟩, rfl, rfl⟩, rfl⟩, rfl⟩,
    rfl⟩, rfl⟩, rfl⟩ := htable
  have hinfo := hinfo.info (by decide) (.inl (by decide)) _ _ _ storedInfo_sampleInfo
  have hversion := hversion.unknownVersion (by decide) 2 0 0 0 (by decide +kernel) (by decide)
  have hslots := hslots.noSlots (by decide) 1 0 9 0 (by decide +kernel) (by decide) (by decide)
    ⟨by decide +kernel, by decide⟩
  have hheader := hheader.noHeader (by decide) (by decide +kernel)
  obtain ⟨target, hother, htarget⟩ := hother.chained (by decide)
  obtain ⟨missing, hlast, hmissing⟩ := hlast.chained (by decide)
  have htarget := (htarget ⟨0x25010629, 0x5206, 0x1000⟩).mpr ⟨.inl (by decide), by decide +kernel⟩
  -- What would be held at the address would reach beyond the end of the file.
  have hmissing : missing = none := by
    refine Option.eq_none_iff_forall_ne_some.mpr fun g hg => ?_
    have hend := ((hmissing g).mp hg).2.end_le
    rw [Layout.length_write] at hend
    exact absurd hend (by decide +kernel)
  simp only [List.map_cons, List.map_nil, hinfo, hother, htarget, hversion, hslots, hheader, hlast,
    hmissing]
  exact ⟨hsize, rfl⟩

end PeCoff.Unwind
