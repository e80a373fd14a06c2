import PeCoff.Memory

/-!
# The export directory

The export directory places three tables: the addresses of the exported functions, the addresses of
their names, and for each name the index of its function. The last two run in parallel. Each table
is read in one piece, so that it is there as a whole or not at all.
-/

namespace PeCoff.Export

/-- The header of the export directory. -/
structure Directory where
  characteristics : UInt32
  timeDateStamp : UInt32
  majorVersion : UInt16
  minorVersion : UInt16
  /-- The address of the name of the library. -/
  libraryName : UInt32
  /-- The ordinal of the first function. -/
  base : UInt32
  numberOfFunctions : UInt32
  numberOfNames : UInt32
  addressOfFunctions : UInt32
  addressOfNames : UInt32
  addressOfNameOrdinals : UInt32
  deriving DecidableEq, Repr

/-- The places of the fields. -/
def Directory.layout : Layout Directory :=
  open Layout in
  (u32.pair <| u32.pair <| u16.pair <| u16.pair <| u32.pair <| u32.pair <| u32.pair <| u32.pair <|
    u32.pair <| u32.pair u32).equiv
    (fun (a, b, c, d, e, f, g, h, i, j, k) => ⟨a, b, c, d, e, f, g, h, i, j, k⟩)
    (fun d => (d.characteristics, d.timeDateStamp, d.majorVersion, d.minorVersion, d.libraryName,
      d.base, d.numberOfFunctions, d.numberOfNames, d.addressOfFunctions, d.addressOfNames,
      d.addressOfNameOrdinals))
    (fun _ => rfl) (fun _ => rfl)

/-- The ordinal of the function at an index; it wraps at 32 bits. -/
def Directory.ordinal (d : Directory) (index : Nat) : UInt32 :=
  d.base + UInt32.ofNat index

/-- The three tables, as far as they can be read. -/
structure Tables where
  functions : Option (List UInt32)
  names : Option (List UInt32)
  ordinals : Option (List UInt16)
  deriving DecidableEq, Repr

namespace Tables

/-- A table of `count` numbers at an address. -/
def column {α : Type} (memory : Memory) (l : Layout α) (address count : UInt32) :
    Option (List α) :=
  (memory address.toNat (count.toNat * l.size)).map l.decodeAll

/-- The tables of a directory. -/
def read (memory : Memory) (d : Directory) : Tables where
  functions := column memory .u32 d.addressOfFunctions d.numberOfFunctions
  names := column memory .u32 d.addressOfNames d.numberOfNames
  ordinals := column memory .u16 d.addressOfNameOrdinals d.numberOfNames

/-- The index of a function and the address of a name of it, for each name. -/
def pairs (tables : Tables) : List (Nat × UInt32) :=
  match tables.names, tables.ordinals with
  | some names, some ordinals => (ordinals.map UInt16.toNat).zip names
  | _, _ => []

end Tables

end PeCoff.Export
