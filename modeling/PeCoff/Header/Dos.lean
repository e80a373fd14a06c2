import PeCoff.Image

/-!
# The DOS header

Every executable starts with the header of a DOS program. Of its fields only the signature, the
place of the new header and two that the report of old formats needs are kept.
-/

namespace PeCoff

/-- The fields of the DOS header that matter for newer formats. -/
structure DosHeader where
  /-- The size of the header in units of sixteen bytes. -/
  paragraphs : UInt16
  /-- The file offset of the relocation table of the DOS program. -/
  relocationTable : UInt16
  /-- The file offset of the new header; it is a signed number. -/
  newHeader : Int32
  deriving DecidableEq, Repr

namespace DosHeader

/-- `MZ`, read as a number. -/
def signature : UInt16 := 0x5A4D

/-- The number of bytes of the header. -/
def size : Nat := 64

/-- The 16-bit number at an offset of a sequence. -/
def half (f : Nat → UInt8) (i : Nat) : UInt16 :=
  Layout.u16.read fun j => f (i + j)

/-- The field that places the new header. -/
def newHeaderField (f : Nat → UInt8) : Int32 :=
  (Layout.u32.read fun j => f (60 + j)).toInt32

/-- The header at the front of a byte string. -/
def decode (bs : Bytes) : Except DecodeError DosHeader :=
  let f := Bytes.zeroExtended bs
  if bs.length < size then
    .error (.tooShort size bs.length)
  else if half f 0 ≠ signature then
    .error .dosSignature
  else
    .ok ⟨half f 8, half f 24, newHeaderField f⟩

/-- The header at an offset of a file. -/
def readFrom (image : Image) (offset : Nat) : Except DecodeError DosHeader :=
  image.readExact offset size >>= decode

/-- The file offset of the new header, unless it is negative. -/
def newHeaderOffset (h : DosHeader) : Option Nat :=
  if 0 ≤ h.newHeader.toInt then some h.newHeader.toInt.toNat else none

end DosHeader

namespace Image

/-- What stands after the DOS header of a module that only holds the place of a real one. -/
def placeholderMark : Bytes :=
  "Wine placeholder DLL\x00".toUTF8.data.toList

/-- Whether the file only holds the place of a real module: the mark follows the DOS header, and
the new header does not overlap the mark. -/
def isPlaceholder (image : Image) : Bool :=
  let stop := DosHeader.size + placeholderMark.length
  match image.read 0 stop with
  | none => false
  | some head =>
    decide ((stop : Int) ≤ (DosHeader.newHeaderField head.zeroExtended).toInt)
      && head.drop DosHeader.size == placeholderMark

end Image

end PeCoff
