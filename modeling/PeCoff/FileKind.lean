import PeCoff.Header.Coff
import PeCoff.Header.Dos

/-!
# Kinds of files

The kind of a file follows from its first two bytes and, for a DOS program, from the signature to
which its header points.
-/

namespace PeCoff

/-- What a file holds. -/
inductive FileKind where
  /-- The debug information of another file. -/
  | debug
  | pe
  | ne
  | le
  /-- A DOS program without a newer header. -/
  | dos
  | unknown
  deriving DecidableEq, Repr

namespace FileKind

/-- `DI`, read as a number. -/
def debugSignature : UInt16 := 0x4944

/-- `NE`, read as a number. -/
def neSignature : UInt16 := 0x454E

/-- `LE`, read as a number. -/
def leSignature : UInt16 := 0x454C

/-- The kind to which the signature of a new header belongs. -/
def ofNewHeader (signature : UInt32) : FileKind :=
  if signature = Image.peSignature then pe
  else if signature.toUInt16 = neSignature then ne
  else if signature.toUInt16 = leSignature then le
  else dos

/-- The kind of a file that starts with a DOS header, when its new header can be read. -/
def detectNewHeader (image : Image) : Option FileKind := do
  let header ← (DosHeader.readFrom image 0).toOption
  let offset ← header.newHeaderOffset
  let signature ← image.record? .u32 offset
  return ofNewHeader signature

/-- The kind of a file. -/
def detect (image : Image) : FileKind :=
  match image.record? .u16 0 with
  | none => unknown
  | some signature =>
    if signature = debugSignature then debug
    else if signature = DosHeader.signature then (detectNewHeader image).getD unknown
    else unknown

/-- The word for a kind. -/
def name : FileKind → String
  | debug => "DBG"
  | pe => "PE"
  | ne => "NE"
  | le => "LE"
  | dos => "DOS"
  | unknown => "unknown"

end FileKind

end PeCoff
