import PeCoff.Export.Directory
import PeCoff.Header.DataDirectory

/-!
# Exported functions

Every index of the address table whose address is not zero is an exported function. Of the names
given to an index the last one counts. An address inside the export directory itself is no address
of code but of a string that names a function of another library.
-/

namespace PeCoff.Export

/-- How an exported function is called. -/
inductive Name where
  /-- The function has no name. -/
  | ordinal
  | named (name : String)
  /-- The name lies at an address that cannot be read. -/
  | unresolved (address : UInt32)
  deriving DecidableEq, Repr

/-- Where an exported function is. -/
inductive Target where
  | address (address : UInt32)
  /-- The function is another one, in another library. -/
  | forwarder (function : String)
  deriving DecidableEq, Repr

/-- An exported function. -/
structure Function where
  ordinal : UInt32
  /-- The entry of the address table. -/
  address : UInt32
  name : Name
  target : Target
  deriving DecidableEq, Repr

/-- The contents of an export directory. -/
structure Table where
  directory : Directory
  /-- The name of the library, if it can be read. -/
  libraryName : Option String
  /-- The functions in the order of the address table. -/
  functions : List Function
  deriving DecidableEq, Repr

namespace Table

/-- For each index the address of the last name given to it, or zero. Names of an index that does
not exist are without effect. -/
def nameAddresses (count : Nat) (pairs : List (Nat × UInt32)) : Array UInt32 :=
  pairs.foldl (fun names (index, address) => names.setIfInBounds index address)
    (Array.replicate count 0)

/-- The name at an address, of which zero stands for none. -/
def nameAt (memory : Memory) (address : UInt32) : Name :=
  if address = 0 then .ordinal
  else
    match memory.text address.toNat with
    | some name => .named name
    | none => .unresolved address

/-- What an entry of the address table stands for. -/
def targetAt (memory : Memory) (range : DataDirectory) (address : UInt32) : Target :=
  if range.contains address then
    match memory.text address.toNat with
    | some function => .forwarder function
    | none => .address address
  else
    .address address

/-- The function at an index, if its address is not zero. -/
def function? (memory : Memory) (range : DataDirectory) (directory : Directory) (index : Nat)
    (address nameAddress : UInt32) : Option Function :=
  if address = 0 then none
  else
    some {
      ordinal := directory.ordinal index
      address
      name := nameAt memory nameAddress
      target := targetAt memory range address }

/-- The contents of the export directory that fills a range of addresses. -/
def decode (memory : Memory) (range : DataDirectory) : Except DecodeError Table := do
  let some bytes := memory range.address.toNat Directory.layout.size
    | throw (.unmapped range.address)
  let directory ← Directory.layout.decode bytes
  let tables := Tables.read memory directory
  let some addresses := tables.functions
    | throw (.missingTable .address)
  let names := nameAddresses addresses.length tables.pairs
  return {
    directory
    libraryName := memory.text directory.libraryName.toNat
    functions := (addresses.zip names.toList).zipIdx.filterMap fun ((address, name), index) =>
      function? memory range directory index address name }

/-- Whether nothing is exported. -/
def isEmpty (t : Table) : Bool :=
  t.functions.isEmpty

/-- The first function with a name. -/
def findName (t : Table) (name : String) : Option Function :=
  t.functions.find? fun f => f.name = .named name

/-- The function with an ordinal. -/
def findOrdinal (t : Table) (ordinal : UInt32) : Option Function :=
  t.functions.find? fun f => f.ordinal = ordinal

end Table

end PeCoff.Export
