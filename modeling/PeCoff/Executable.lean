import PeCoff.CommonRuntime
import PeCoff.DebugInfo.Directory
import PeCoff.Export.Symbols
import PeCoff.Export.Table
import PeCoff.Header.Coff
import PeCoff.Header.Dos
import PeCoff.Header.Optional
import PeCoff.Header.Section
import PeCoff.Import.Delayed
import PeCoff.Import.Table
import PeCoff.Relocation
import PeCoff.Resource.Tree
import PeCoff.ThreadStorage
import PeCoff.Unwind.Table

/-!
# Executable images

The headers of an image together with its file, and every directory to which the headers lead. Only
the DOS header, the signature and the COFF header must be there; what comes after them may be cut
short. All directories but the debug information are reached through `memory`, which maps addresses
to file offsets by the section table.
-/

namespace PeCoff

/-- An executable image with its headers decoded. -/
structure Executable where
  image : Image
  dosHeader : DosHeader
  /-- The file offset of the new header. -/
  headerOffset : Nat
  coffHeader : CoffHeader
  optionalHeader : OptionalHeader
  /-- The section headers that the file holds, which may be fewer than the header declares. -/
  sections : List SectionHeader

namespace Executable

/-- The image that a file holds. -/
def parse (image : Image) : Except DecodeError Executable := do
  let dosHeader ← DosHeader.readFrom image 0
  let some headerOffset := dosHeader.newHeaderOffset
    | throw .peSignature
  image.checkPeSignature headerOffset
  let coffOffset := headerOffset + Layout.u32.size
  let coffHeader ← image.record CoffHeader.layout coffOffset
  let optionalOffset := coffOffset + CoffHeader.layout.size
  let tableOffset := optionalOffset + coffHeader.sizeOfOptionalHeader.toNat
  return {
    image
    dosHeader
    headerOffset
    coffHeader
    optionalHeader :=
      OptionalHeader.readFrom image optionalOffset coffHeader.sizeOfOptionalHeader
    sections := SectionHeader.readTable image tableOffset coffHeader.numberOfSections.toNat }

variable (e : Executable)

/-- Whether the image only holds the place of a real one. -/
def isPlaceholder : Bool :=
  e.image.isPlaceholder

/-- Whether addresses have 64 bits. -/
def isWide : Bool :=
  e.optionalHeader.isWide

/-- The address for which the image was linked. -/
def imageBase : UInt64 :=
  e.optionalHeader.imageBase

/-- The file offset of the section table. -/
def sectionTableOffset : Nat :=
  e.headerOffset + Layout.u32.size + CoffHeader.layout.size
    + e.coffHeader.sizeOfOptionalHeader.toNat

/-- The file offset of the string table, if there is a symbol table. -/
def stringTableOffset : Option Nat :=
  e.coffHeader.stringTableOffset

/-- The name of a section. -/
def sectionName (s : SectionHeader) : SectionName :=
  s.resolveName e.image e.stringTableOffset

/-- The bytes of a section in the file. -/
def sectionData (s : SectionHeader) : Option Bytes :=
  e.image.read s.pointerToRawData.toNat s.sizeOfRawData.toNat

/-- The file offset of a range of addresses. -/
def fileOffset (address length : Nat) : Option Nat :=
  SectionHeader.resolve e.sections address length

/-- The memory that the sections of the image make up. -/
def memory : Memory := fun address length =>
  (e.fileOffset address length).bind fun offset => e.image.read offset length

/-- The address and size of a directory, if the header declares its slot. -/
def dataDirectory (index : Nat) : Option DataDirectory :=
  e.optionalHeader.slot? index

/-- The address, size and bytes of a directory, when one section holds all of them. -/
def directory (index : Nat) : Option (DataDirectory × Bytes) := do
  let range ← e.dataDirectory index
  let bytes ← e.memory range.address.toNat range.size.toNat
  return (range, bytes)

/-- The directory of a slot. -/
def directoryOf (slot : DirectorySlot) : Option (DataDirectory × Bytes) :=
  e.directory slot.index

/-! ## Directories -/

/-- The exported functions. -/
def exports : Except DecodeError (Option Export.Table) :=
  match e.directoryOf .exports with
  | none => .ok none
  | some (range, _) => some <$> Export.Table.decode e.memory range

/-- The header of the export directory. -/
def exportDirectory : Option Export.Directory := do
  let (range, _) ← e.directoryOf .exports
  e.memory.record? Export.Directory.layout range.address.toNat

/-- The exported symbols, those without a name called after a tag. An image without an export
directory has none. -/
def exportSymbols (tag : String) : Except DecodeError Export.Symbols :=
  match e.exportDirectory with
  | none => .ok {}
  | some directory => Export.Symbols.ofDirectory e.memory directory tag

/-- The imported libraries. -/
def imports : Option Import.Table :=
  (e.directoryOf .imports).map fun (range, _) =>
    Import.Table.decode e.memory e.isWide range.address range.size

/-- The libraries that are loaded on first use. -/
def delayedImports : Option Import.DelayedTable :=
  (e.directoryOf .delayImports).map fun (range, _) =>
    Import.DelayedTable.decode e.memory e.isWide e.imageBase range.address range.size

/-- The entries of the debug directory. -/
def debugEntries : Option (List DebugInfo.Entry) :=
  (e.directoryOf .debug).map fun (_, bytes) => DebugInfo.Entry.decodeAll e.image.read bytes

/-- The resources. -/
def resources : Option Resource.Tree := do
  let (range, _) ← e.directoryOf .resources
  Resource.Tree.decode e.memory range.address

/-- The base relocations. -/
def relocations : Option Relocation.Table :=
  (e.directoryOf .relocations).map fun (_, bytes) => Relocation.Table.decode bytes

/-- The thread-local storage. -/
def threadStorage : Option ThreadStorage.Info := do
  let (range, _) ← e.directoryOf .threadStorage
  let bytes ← e.memory range.address.toNat (ThreadStorage.Directory.size e.isWide)
  ThreadStorage.Info.decode e.memory e.isWide e.imageBase bytes

/-- The header of the common language runtime. -/
def commonRuntime : Option CommonRuntime := do
  let (range, _) ← e.directoryOf .commonRuntime
  e.memory.record? CommonRuntime.layout range.address.toNat

/-- The entries of the exception directory. -/
def exceptions : Option (List Unwind.Entry) :=
  (e.directoryOf .exceptions).map fun (_, bytes) => Unwind.decodeTable e.memory bytes

end Executable

end PeCoff
