import PeCoff.DebugInfo.Directory
import PeCoff.FileKind
import PeCoff.Header.Section

/-!
# Split debug files

A split debug file holds the debug information that was taken out of an image: a header, a copy of
the section table, the exported names, and the debug directory. The section table is there as a
whole or not at all, and without it there is no debug directory.
-/

namespace PeCoff

/-- The header of a split debug file. -/
structure DebugHeader where
  flags : UInt16
  machine : UInt16
  characteristics : UInt16
  timeDateStamp : UInt32
  checkSum : UInt32
  imageBase : UInt32
  sizeOfImage : UInt32
  numberOfSections : UInt32
  /-- The size of the exported names, which precede the debug directory. -/
  exportedNamesSize : UInt32
  debugDirectorySize : UInt32
  sectionAlignment : UInt32
  deriving DecidableEq, Repr

namespace DebugHeader

/-- The places of the fields after the signature; the reserved fields at the end are left out. -/
def fields : Layout DebugHeader :=
  open Layout in
  (u16.pair <| u16.pair <| u16.pair <| u32.pair <| u32.pair <| u32.pair <| u32.pair <| u32.pair <|
    u32.pair <| u32.pair u32).equiv
    (fun (a, b, c, d, e, f, g, h, i, j, k) => ⟨a, b, c, d, e, f, g, h, i, j, k⟩)
    (fun h => (h.flags, h.machine, h.characteristics, h.timeDateStamp, h.checkSum, h.imageBase,
      h.sizeOfImage, h.numberOfSections, h.exportedNamesSize, h.debugDirectorySize,
      h.sectionAlignment))
    (fun _ => rfl) (fun _ => rfl)

/-- The number of bytes of the header. -/
def size : Nat := 48

/-- The header at the front of a byte string. -/
def decode (bs : Bytes) : Except DecodeError DebugHeader :=
  let f := Bytes.zeroExtended bs
  if bs.length < size then
    .error (.tooShort size bs.length)
  else if Layout.u16.read f ≠ FileKind.debugSignature then
    .error .debugSignature
  else
    .ok (fields.read fun i => f (Layout.u16.size + i))

/-- The number of entries of the debug directory. -/
def debugEntryCount (h : DebugHeader) : Nat :=
  h.debugDirectorySize.toNat / DebugInfo.Directory.layout.size

/-- The file offset of the debug directory. -/
def debugDirectoryOffset (h : DebugHeader) : Nat :=
  size + h.numberOfSections.toNat * SectionHeader.layout.size + h.exportedNamesSize.toNat

end DebugHeader

/-- A split debug file with its headers decoded. -/
structure DebugFile where
  image : Image
  header : DebugHeader
  /-- The section table, if the file holds all of it. -/
  sections : Option (List SectionHeader)
  /-- The entries of the debug directory, if the file holds all of them. -/
  debugEntries : Option (List DebugInfo.Entry)

namespace DebugFile

/-- The section table that a header declares. -/
def sectionTable (image : Image) (h : DebugHeader) : Option (List SectionHeader) :=
  (image.read DebugHeader.size (h.numberOfSections.toNat * SectionHeader.layout.size)).map
    SectionHeader.layout.decodeAll

/-- The debug directory that a header declares. -/
def debugDirectory (image : Image) (h : DebugHeader) : Option (List DebugInfo.Entry) :=
  (image.read h.debugDirectoryOffset (h.debugEntryCount * DebugInfo.Directory.layout.size)).map
    (DebugInfo.Entry.decodeAll image.read)

/-- The split debug file that a file holds. -/
def parse (image : Image) : Except DecodeError DebugFile := do
  let header ← image.readExact 0 DebugHeader.size >>= DebugHeader.decode
  let sections := sectionTable image header
  return {
    image
    header
    sections
    debugEntries := sections.bind fun _ => debugDirectory image header }

end DebugFile

end PeCoff
