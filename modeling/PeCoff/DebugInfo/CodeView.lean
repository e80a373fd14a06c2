import PeCoff.Layout
import PeCoff.Text.Number
import PeCoff.Text.Unicode

/-!
# CodeView records

A CodeView record names the program database that holds the debug information of an image, and the
number or identifier that the database must have to belong to it.
-/

namespace PeCoff.DebugInfo

/-- A CodeView record. -/
inductive CodeView where
  /-- A database with a unique identifier. -/
  | rsds (identifier : Vector UInt8 16) (age : UInt32) (path : String)
  /-- A database with a time stamp for an identifier. -/
  | nb10 (offset signature age : UInt32) (path : String)
  /-- A record of another kind, of which only the signature is read. -/
  | other (signature : Vector UInt8 4)
  deriving DecidableEq, Repr

namespace CodeView

/-- `RSDS`, read as a number. -/
def rsdsSignature : UInt32 := 0x53445352

/-- `NB10`, read as a number. -/
def nb10Signature : UInt32 := 0x3031424E

/-- The text that fills a byte string up to its first zero. -/
def path (bs : Bytes) : String :=
  Text.ofUtf8 (Bytes.untilZero bs)

/-- The record held by a byte string, unless it is too short for its kind. -/
def decode? (bs : Bytes) : Option CodeView := do
  let signature ← Layout.u32.decode? bs
  if signature = rsdsSignature then
    let (_, identifier, age) ← (Layout.u32.pair <| (Layout.u8.vector 16).pair .u32).decode? bs
    return rsds identifier age (path (bs.drop 24))
  else if signature = nb10Signature then
    let (_, offset, stamp, age) ←
      (Layout.u32.pair <| Layout.u32.pair <| Layout.u32.pair .u32).decode? bs
    return nb10 offset stamp age (path (bs.drop 16))
  else
    return other ((Layout.u8.vector 4).read bs.zeroExtended)

/-- An identifier as one hexadecimal number. Its first three groups of bytes are little-endian, the
others are written byte by byte. -/
def identifierText (identifier : Vector UInt8 16) : String :=
  let bs := identifier.toList
  let group (start count : Nat) : String :=
    Text.upperHexOf (2 * count) (Bytes.littleEndian ((bs.drop start).take count))
  group 0 4 ++ group 4 2 ++ group 6 2
    ++ String.join ((bs.drop 8).map fun b => Text.upperHexOf 2 b.toNat)

end CodeView

end PeCoff.DebugInfo
