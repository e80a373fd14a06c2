import PeCoff.Header.Flags
import PeCoff.Image

/-!
# The COFF header

The file header of an object file or image: the machine, the number of sections, the symbol table
and the size of the optional header.
-/

namespace PeCoff

/-- The machines that have a name. -/
def machineNames : List (UInt16 × String) := [
  (0x0000, "Unknown"),
  (0x014C, "i386"),
  (0x014D, "i860"),
  (0x0162, "R3000"),
  (0x0166, "R4000"),
  (0x0168, "R10000"),
  (0x0184, "Alpha"),
  (0x01C0, "ARM"),
  (0x01F0, "PowerPC"),
  (0x0200, "IA64"),
  (0x8664, "AMD64")]

/-- The name of a machine, if it has one. -/
def machineName? (machine : UInt16) : Option String :=
  machineNames.lookup machine

/-- The name of a machine, or question marks. -/
def machineName (machine : UInt16) : String :=
  (machineName? machine).getD "???"

/-- The machine whose exception tables are understood. -/
def machineAmd64 : UInt16 := 0x8664

/-- The header that follows the signature of the new header. -/
structure CoffHeader where
  machine : UInt16
  numberOfSections : UInt16
  timeDateStamp : UInt32
  /-- The file offset of the symbol table, zero when there is none. -/
  pointerToSymbolTable : UInt32
  numberOfSymbols : UInt32
  sizeOfOptionalHeader : UInt16
  characteristics : UInt16
  deriving DecidableEq, Repr

namespace CoffHeader

/-- The places of the fields. -/
def layout : Layout CoffHeader :=
  open Layout in
  (u16.pair <| u16.pair <| u32.pair <| u32.pair <| u32.pair <| u16.pair u16).equiv
    (fun (a, b, c, d, e, f, g) => ⟨a, b, c, d, e, f, g⟩)
    (fun h => (h.machine, h.numberOfSections, h.timeDateStamp, h.pointerToSymbolTable,
      h.numberOfSymbols, h.sizeOfOptionalHeader, h.characteristics))
    (fun _ => rfl) (fun _ => rfl)

/-- The flags of an image or object file. -/
def flagLabels : List (UInt32 × String) := [
  (0x0001, "RELOCS_STRIPPED"),
  (0x0002, "EXECUTABLE_IMAGE"),
  (0x0004, "LINE_NUMS_STRIPPED"),
  (0x0008, "LOCAL_SYMS_STRIPPED"),
  (0x0010, "AGGRESIVE_WS_TRIM"),
  (0x0020, "LARGE_ADDRESS_AWARE"),
  (0x0040, "16BIT_MACHINE"),
  (0x0080, "BYTES_REVERSED_LO"),
  (0x0100, "32BIT_MACHINE"),
  (0x0200, "DEBUG_STRIPPED"),
  (0x0400, "REMOVABLE_RUN_FROM_SWAP"),
  (0x0800, "NET_RUN_FROM_SWAP"),
  (0x1000, "SYSTEM"),
  (0x2000, "DLL"),
  (0x4000, "UP_SYSTEM_ONLY"),
  (0x8000, "BYTES_REVERSED_HI")]

/-- The labels of a flag word. -/
def labelsOf (characteristics : UInt16) : List String :=
  setLabels flagLabels characteristics.toUInt32

/-- The labels of the flags that are set. -/
def labels (h : CoffHeader) : List String :=
  labelsOf h.characteristics

/-- Whether the image is a library. -/
def isLibrary (h : CoffHeader) : Bool :=
  h.characteristics &&& 0x2000 != 0

/-- The number of bytes of one record of the symbol table. -/
def symbolSize : Nat := 18

/-- Whether the header declares a symbol table. -/
def hasSymbols (h : CoffHeader) : Bool :=
  h.pointerToSymbolTable != 0 && h.numberOfSymbols != 0

/-- The file offset of the string table, which follows the symbol table. -/
def stringTableOffset (h : CoffHeader) : Option Nat :=
  if h.hasSymbols then
    some (h.pointerToSymbolTable.toNat + h.numberOfSymbols.toNat * symbolSize)
  else
    none

end CoffHeader

namespace Image

/-- `PE` and two zeros, read as a number. -/
def peSignature : UInt32 := 0x00004550

/-- Checks that the new header at an offset starts with its signature. -/
def checkPeSignature (image : Image) (offset : Nat) : Except DecodeError Unit := do
  if (← image.record .u32 offset) ≠ peSignature then
    throw .peSignature

end Image

end PeCoff
