import PeCoff.Header.DataDirectory
import PeCoff.Header.Flags
import PeCoff.Image

/-!
# The optional header

The header that tells the loader where and how to place an image. There are two layouts, which
differ in the width of addresses; the wide one is used for its own signature alone. A header that is
shorter than its layout, or missing, reads as if zeros followed it.
-/

namespace PeCoff

/-- The fields of an optional header, with `Base` for the base of data, which the wide layout
leaves out, and `Word` for addresses and sizes in memory. -/
structure OptionalFields (Base Word : Type) where
  magic : UInt16
  majorLinkerVersion : UInt8
  minorLinkerVersion : UInt8
  sizeOfCode : UInt32
  sizeOfInitializedData : UInt32
  sizeOfUninitializedData : UInt32
  addressOfEntryPoint : UInt32
  baseOfCode : UInt32
  baseOfData : Base
  imageBase : Word
  sectionAlignment : UInt32
  fileAlignment : UInt32
  majorSystemVersion : UInt16
  minorSystemVersion : UInt16
  majorImageVersion : UInt16
  minorImageVersion : UInt16
  majorSubsystemVersion : UInt16
  minorSubsystemVersion : UInt16
  win32Version : UInt32
  sizeOfImage : UInt32
  sizeOfHeaders : UInt32
  checkSum : UInt32
  subsystem : UInt16
  dllCharacteristics : UInt16
  sizeOfStackReserve : Word
  sizeOfStackCommit : Word
  sizeOfHeapReserve : Word
  sizeOfHeapCommit : Word
  loaderFlags : UInt32
  /-- How many of the slots are declared; the number may exceed the slots that there are. -/
  declaredSlots : UInt32
  slots : Vector DataDirectory slotCount
  deriving DecidableEq, Repr

/-- The places of the fields for given widths. -/
def OptionalFields.layout {Base Word : Type} (base : Layout Base) (word : Layout Word) :
    Layout (OptionalFields Base Word) :=
  open Layout in
  (u16.pair <| u8.pair <| u8.pair <| u32.pair <| u32.pair <| u32.pair <| u32.pair <| u32.pair <|
    base.pair <| word.pair <| u32.pair <| u32.pair <| u16.pair <| u16.pair <| u16.pair <|
    u16.pair <| u16.pair <| u16.pair <| u32.pair <| u32.pair <| u32.pair <| u32.pair <|
    u16.pair <| u16.pair <| word.pair <| word.pair <| word.pair <| word.pair <| u32.pair <|
    u32.pair (DataDirectory.layout.vector slotCount)).equiv
    (fun (a, b, c, d, e, f, g, h, i, j, k, l, m, n, o, p, q, r, s, t, u, v, w, x, y, z, a₁, b₁, c₁,
        d₁, e₁) =>
      ⟨a, b, c, d, e, f, g, h, i, j, k, l, m, n, o, p, q, r, s, t, u, v, w, x, y, z, a₁, b₁, c₁,
        d₁, e₁⟩)
    (fun h => (h.magic, h.majorLinkerVersion, h.minorLinkerVersion, h.sizeOfCode,
      h.sizeOfInitializedData, h.sizeOfUninitializedData, h.addressOfEntryPoint, h.baseOfCode,
      h.baseOfData, h.imageBase, h.sectionAlignment, h.fileAlignment, h.majorSystemVersion,
      h.minorSystemVersion, h.majorImageVersion, h.minorImageVersion, h.majorSubsystemVersion,
      h.minorSubsystemVersion, h.win32Version, h.sizeOfImage, h.sizeOfHeaders, h.checkSum,
      h.subsystem, h.dllCharacteristics, h.sizeOfStackReserve, h.sizeOfStackCommit,
      h.sizeOfHeapReserve, h.sizeOfHeapCommit, h.loaderFlags, h.declaredSlots, h.slots))
    (fun _ => rfl) (fun _ => rfl)

/-- An optional header in one of its two layouts. -/
inductive OptionalHeader where
  | narrow (fields : OptionalFields UInt32 UInt32)
  | wide (fields : OptionalFields Unit UInt64)
  deriving DecidableEq, Repr

namespace OptionalHeader

/-- The signature of a header with 32-bit addresses. -/
def narrowMagic : UInt16 := 0x10B

/-- The signature of a header with 64-bit addresses. -/
def wideMagic : UInt16 := 0x20B

/-- The signature of a header in a ROM image. -/
def romMagic : UInt16 := 0x107

/-- A word for a signature. -/
def magicName (magic : UInt16) : String :=
  if magic = narrowMagic then "32bit"
  else if magic = wideMagic then "64bit"
  else if magic = romMagic then "ROM"
  else "???"

/-- The layout with 32-bit addresses. -/
def narrowLayout : Layout (OptionalFields UInt32 UInt32) :=
  OptionalFields.layout .u32 .u32

/-- The layout with 64-bit addresses. -/
def wideLayout : Layout (OptionalFields Unit UInt64) :=
  OptionalFields.layout .unit .u64

/-- The header at the front of a byte sequence. Its signature chooses the layout, and every
signature but one chooses the narrow layout. -/
def read (f : Nat → UInt8) : OptionalHeader :=
  if Layout.u16.read f = wideMagic then wide (wideLayout.read f) else narrow (narrowLayout.read f)

/-- The bytes of a header. -/
def write : OptionalHeader → Bytes
  | narrow fields => narrowLayout.write fields
  | wide fields => wideLayout.write fields

/-- The header held by a byte string that may be too short. -/
def decode (bs : Bytes) : OptionalHeader :=
  read bs.zeroExtended

/-- The header at an offset of a file, of a declared size. -/
def readFrom (image : Image) (offset : Nat) (declaredSize : UInt16) : OptionalHeader :=
  decode (image.clipped offset (min declaredSize.toNat wideLayout.size))

/-- Whether addresses have 64 bits. -/
def isWide : OptionalHeader → Bool
  | narrow _ => false
  | wide _ => true

/-- The signature of the header. -/
def magic : OptionalHeader → UInt16
  | narrow fields => fields.magic
  | wide fields => fields.magic

/-- The slots of the header, declared or not. -/
def slots : OptionalHeader → Vector DataDirectory slotCount
  | narrow fields => fields.slots
  | wide fields => fields.slots

/-- How many slots the header declares. -/
def declaredSlots : OptionalHeader → UInt32
  | narrow fields => fields.declaredSlots
  | wide fields => fields.declaredSlots

/-- The slot at a place, if the header declares it. -/
def slot? (h : OptionalHeader) (index : Nat) : Option DataDirectory :=
  if index < h.declaredSlots.toNat then h.slots[index]? else none

/-- The address for which the image was linked. -/
def imageBase : OptionalHeader → UInt64
  | narrow fields => fields.imageBase.toUInt64
  | wide fields => fields.imageBase

/-- The name of a subsystem. -/
def subsystemName (subsystem : UInt16) : String :=
  match subsystem.toNat with
  | 1 => "Native"
  | 2 => "Windows GUI"
  | 3 => "Windows CUI"
  | 5 => "OS/2 CUI"
  | 7 => "Posix CUI"
  | _ => "Unknown"

/-- The flags of a library that are reported. -/
def libraryFlagLabels : List (UInt32 × String) := [
  (0x0040, "DYNAMIC_BASE"),
  (0x0080, "FORCE_INTEGRITY"),
  (0x0100, "NX_COMPAT"),
  (0x0200, "NO_ISOLATION"),
  (0x0400, "NO_SEH"),
  (0x0800, "NO_BIND"),
  (0x2000, "WDM_DRIVER"),
  (0x8000, "TERMINAL_SERVER_AWARE")]

/-- The labels of a word of library flags. -/
def libraryLabels (characteristics : UInt16) : List String :=
  setLabels libraryFlagLabels characteristics.toUInt32

end OptionalHeader

end PeCoff
