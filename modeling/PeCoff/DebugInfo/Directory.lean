import PeCoff.Memory

/-!
# The debug directory

The debug directory is an array of entries, each of which describes one piece of debug information
by its file offset and size. What is read of a piece depends on its type; other than the rest of an
image it is read by file offset, not by address.
-/

namespace PeCoff.DebugInfo

/-- One entry of the debug directory. -/
structure Directory where
  characteristics : UInt32
  timeDateStamp : UInt32
  majorVersion : UInt16
  minorVersion : UInt16
  debugType : UInt32
  sizeOfData : UInt32
  addressOfRawData : UInt32
  pointerToRawData : UInt32
  deriving DecidableEq, Repr

/-- The places of the fields. -/
def Directory.layout : Layout Directory :=
  open Layout in
  (u32.pair <| u32.pair <| u16.pair <| u16.pair <| u32.pair <| u32.pair <| u32.pair u32).equiv
    (fun (a, b, c, d, e, f, g, h) => ⟨a, b, c, d, e, f, g, h⟩)
    (fun d => (d.characteristics, d.timeDateStamp, d.majorVersion, d.minorVersion, d.debugType,
      d.sizeOfData, d.addressOfRawData, d.pointerToRawData))
    (fun _ => rfl) (fun _ => rfl)

/-- The names of the types of debug information, by number. -/
def typeNames : List String :=
  ["UNKNOWN", "COFF", "CODEVIEW", "FPO", "MISC", "EXCEPTION", "FIXUP", "OMAP_TO_SRC",
    "OMAP_FROM_SRC", "BORLAND", "RESERVED10"]

/-- The name of a type of debug information; types without one are unknown. -/
def typeName (debugType : UInt32) : String :=
  typeNames.getD debugType.toNat "UNKNOWN"

/-- A text attached to an image, such as the name of the file that was linked. -/
structure Misc where
  dataType : UInt32
  length : UInt32
  /-- Whether the text is kept in UTF-16. -/
  unicode : Bool
  text : String
  deriving DecidableEq, Repr

namespace Misc

/-- The number of bytes before the text. -/
def headerSize : Nat := 12

/-- The text and the fields before it. -/
def decode (bs : Bytes) : Except DecodeError Misc :=
  if bs.length < headerSize then
    .error (.tooShort headerSize bs.length)
  else
    let f := bs.zeroExtended
    let unicode := f 8 != 0
    let rest := bs.drop headerSize
    .ok {
      dataType := Layout.u32.read f
      length := Layout.u32.read fun i => f (4 + i)
      unicode
      text :=
        if unicode then Text.ofUtf16 ((Text.Utf16.units rest).takeWhile (· != 0))
        else Text.ofUtf8 (Bytes.untilZero rest) }

/-- What the text is. -/
def dataTypeName (m : Misc) : String :=
  if m.dataType = 1 then "Exe name" else "Unknown"

end Misc

/-- What was read of a piece of debug information. -/
inductive Payload where
  | misc (misc : Misc)
  /-- The text cannot be read. -/
  | miscUnavailable
  | coff (data : Option Bytes)
  | codeView (data : Option Bytes)
  | framePointers (data : Option Bytes)
  /-- Nothing is read of other types. -/
  | none
  deriving DecidableEq, Repr

/-- An entry of the debug directory and what it describes. -/
structure Entry where
  directory : Directory
  payload : Payload
  deriving DecidableEq, Repr

namespace Entry

/-- The piece of debug information that an entry describes. -/
def payloadOf (file : Memory) (directory : Directory) : Payload :=
  let raw := file directory.pointerToRawData.toNat directory.sizeOfData.toNat
  match directory.debugType.toNat with
  | 1 => .coff raw
  | 2 => .codeView raw
  | 3 => .framePointers raw
  | 4 =>
    match raw.bind fun bs => (Misc.decode bs).toOption with
    | some misc => .misc misc
    | none => .miscUnavailable
  | _ => .none

/-- The entries of a debug directory, whose pieces lie in `file`. -/
def decodeAll (file : Memory) (table : Bytes) : List Entry :=
  (Directory.layout.decodeAll table).map fun directory => ⟨directory, payloadOf file directory⟩

end Entry

end PeCoff.DebugInfo
