import PeCoff.Header.Flags
import PeCoff.Image
import PeCoff.Text.Unicode

/-!
# Section headers

The section table places the parts of an image in the file and in memory. A name that does not fit
into the header is kept in the string table, and the header then holds a slash and the place of the
name in decimal.
-/

namespace PeCoff

/-- One entry of the section table. -/
structure SectionHeader where
  /-- The name, filled up with zeros. -/
  name : Vector UInt8 8
  virtualSize : UInt32
  /-- The address of the section in memory, relative to the image. -/
  virtualAddress : UInt32
  /-- The number of bytes that the section has in the file. -/
  sizeOfRawData : UInt32
  /-- The file offset of the section. -/
  pointerToRawData : UInt32
  pointerToRelocations : UInt32
  pointerToLineNumbers : UInt32
  numberOfRelocations : UInt16
  numberOfLineNumbers : UInt16
  characteristics : UInt32
  deriving DecidableEq, Repr

/-- What a section is called. -/
inductive SectionName where
  /-- The name is in the header. -/
  | short (name : String)
  /-- The header holds `raw`, which refers to a name in the string table. -/
  | long (raw name : String)
  deriving DecidableEq, Repr

/-- The most descriptive name. -/
def SectionName.best : SectionName → String
  | short name => name
  | long _ name => name

namespace SectionHeader

/-- The places of the fields. -/
def layout : Layout SectionHeader :=
  open Layout in
  ((u8.vector 8).pair <| u32.pair <| u32.pair <| u32.pair <| u32.pair <| u32.pair <| u32.pair <|
    u16.pair <| u16.pair u32).equiv
    (fun (a, b, c, d, e, f, g, h, i, j) => ⟨a, b, c, d, e, f, g, h, i, j⟩)
    (fun s => (s.name, s.virtualSize, s.virtualAddress, s.sizeOfRawData, s.pointerToRawData,
      s.pointerToRelocations, s.pointerToLineNumbers, s.numberOfRelocations, s.numberOfLineNumbers,
      s.characteristics))
    (fun _ => rfl) (fun _ => rfl)

/-- Up to `count` headers, one after the other, as long as the file holds them. -/
def readTable (image : Image) (offset : Nat) : (count : Nat) → List SectionHeader
  | 0 => []
  | count + 1 =>
    match image.record? layout offset with
    | none => []
    | some s => s :: readTable image (offset + layout.size) count

/-! ## Characteristics -/

/-- The flags that are reported before the alignment. -/
def contentLabels : List (UInt32 × String) := [
  (0x00000020, "CODE"),
  (0x00000040, "INITIALIZED_DATA"),
  (0x00000080, "UNINITIALIZED_DATA"),
  (0x00000100, "LNK_OTHER"),
  (0x00000200, "LNK_INFO"),
  (0x00000800, "LNK_REMOVE"),
  (0x00001000, "LNK_COMDAT"),
  (0x00008000, "MEM_FARDATA"),
  (0x00020000, "MEM_PURGEABLE"),
  (0x00020000, "MEM_16BIT"),
  (0x00040000, "MEM_LOCKED"),
  (0x00080000, "MEM_PRELOAD")]

/-- The flags that are reported after the alignment. -/
def memoryLabels : List (UInt32 × String) := [
  (0x01000000, "LNK_NRELOC_OVFL"),
  (0x02000000, "MEM_DISCARDABLE"),
  (0x04000000, "MEM_NOT_CACHED"),
  (0x08000000, "MEM_NOT_PAGED"),
  (0x10000000, "MEM_SHARED"),
  (0x20000000, "MEM_EXECUTE"),
  (0x40000000, "MEM_READ"),
  (0x80000000, "MEM_WRITE")]

/-- The alignment that four bits of the characteristics encode as an exponent; zero and fifteen
encode none. -/
def alignmentOf (characteristics : UInt32) : Option Nat :=
  let code := characteristics.toNat / 0x100000 % 16
  if 1 ≤ code ∧ code ≤ 14 then some (1 <<< (code - 1)) else none

/-- The labels of the characteristics, with the alignment among them. -/
def labelsOf (characteristics : UInt32) : List String :=
  setLabels contentLabels characteristics
    ++ (alignmentOf characteristics).toList.map (fun n => s!"ALIGN_{n}BYTES")
    ++ setLabels memoryLabels characteristics

/-! ## Names -/

/-- The bytes of the name in the header. -/
def rawName (s : SectionHeader) : Bytes :=
  Bytes.untilZero s.name.toList

/-- The name in the header as text. -/
def shortName (s : SectionHeader) : String :=
  Text.ofUtf8 s.rawName

/-- Whether a byte is a decimal digit. -/
def isDigit (b : UInt8) : Bool :=
  48 ≤ b && b ≤ 57

/-- The place in the string table to which the name refers: the digits after a slash, as far as
they go, as a number that wraps at 32 bits. -/
def longNameOffset (s : SectionHeader) : Option UInt32 :=
  match s.rawName with
  | 47 :: rest => some ((rest.takeWhile isDigit).foldl (fun n d => n * 10 + (d - 48).toUInt32) 0)
  | _ => none

/-- The name in the string table at a file offset, when the header refers to one that starts inside
the table. The table starts with its own size. -/
def longName (s : SectionHeader) (image : Image) (stringTable : Option Nat) : Option String := do
  let table ← stringTable
  let offset ← s.longNameOffset
  let declared ← image.record? .u32 table
  guard (offset < declared)
  (image.stringAt (table + offset.toNat)).map Text.ofUtf8

/-- The name of the section. -/
def resolveName (s : SectionHeader) (image : Image) (stringTable : Option Nat) : SectionName :=
  match s.longName image stringTable with
  | some name => .long s.shortName name
  | none => .short s.shortName

/-! ## Placement -/

/-- Whether a range of addresses lies in the part of the section that the file holds. -/
def maps (s : SectionHeader) (address length : Nat) : Bool :=
  s.virtualAddress.toNat ≤ address
    && address + length ≤ s.virtualAddress.toNat + s.sizeOfRawData.toNat

/-- The file offset of a range of addresses. Address zero is nowhere, and of two sections that
overlap the one listed later holds the range. -/
def resolve (sections : List SectionHeader) (address length : Nat) : Option Nat :=
  if address = 0 then none
  else
    (sections.reverse.find? fun s => s.maps address length).map fun s =>
      s.pointerToRawData.toNat + (address - s.virtualAddress.toNat)

end SectionHeader

end PeCoff
