import PeCoff.Import.Thunk

/-!
# Imported libraries

The import directory is an array of descriptors, one for each library. It ends at a descriptor
without a name or without a thunk array, or where it can no longer be read.
-/

namespace PeCoff.Import

/-- The entry of a library in the import directory. -/
structure Descriptor where
  /-- The address of the thunks as the linker wrote them, zero when only the others exist. -/
  lookupTable : UInt32
  timeDateStamp : UInt32
  forwarderChain : UInt32
  /-- The address of the name of the library. -/
  name : UInt32
  /-- The address of the thunks that the loader overwrites. -/
  addressTable : UInt32
  deriving DecidableEq, Repr

namespace Descriptor

/-- The places of the fields. -/
def layout : Layout Descriptor :=
  open Layout in
  (u32.pair <| u32.pair <| u32.pair <| u32.pair u32).equiv
    (fun (a, b, c, d, e) => ⟨a, b, c, d, e⟩)
    (fun d => (d.lookupTable, d.timeDateStamp, d.forwarderChain, d.name, d.addressTable))
    (fun _ => rfl) (fun _ => rfl)

/-- Whether the descriptor ends the array. -/
def isTerminator (d : Descriptor) : Bool :=
  d.name == 0 || d.addressTable == 0

/-- The address of the thunks to follow. -/
def lookupAddress (d : Descriptor) : UInt32 :=
  if d.lookupTable ≠ 0 then d.lookupTable else d.addressTable

end Descriptor

/-- A library from which functions are imported. -/
structure Library where
  /-- The address of the descriptor. -/
  address : Nat
  descriptor : Descriptor
  /-- The name of the library, if it can be read. -/
  name : Option String
  /-- The functions, if their array can be read. -/
  thunks : Option (List Thunk)
  deriving DecidableEq, Repr

/-- The library whose descriptor lies at an address, unless the array ends there. -/
def Library.at? (memory : Memory) (wide : Bool) (address : Nat) : Option Library := do
  let descriptor ← memory.record? Descriptor.layout address
  guard !descriptor.isTerminator
  return {
    address
    descriptor
    name := memory.text descriptor.name.toNat
    thunks := Thunk.array memory wide 0 descriptor.lookupAddress.toNat }

/-- The contents of an import directory. -/
structure Table where
  /-- The declared size of the directory. -/
  size : UInt32
  libraries : List Library
  deriving DecidableEq, Repr

namespace Table

/-- The contents of the import directory at an address. -/
def decode (memory : Memory) (wide : Bool) (address size : UInt32) : Table where
  size
  libraries := walk Descriptor.layout.size (Library.at? memory wide) address.toNat

/-- Whether nothing is imported. -/
def isEmpty (t : Table) : Bool :=
  t.libraries.isEmpty

/-- The number of imported functions. -/
def importCount (t : Table) : Nat :=
  (t.libraries.flatMap fun l => l.thunks.getD []).length

/-- Whether two texts differ at most in the case of ASCII letters. -/
def sameIgnoringCase (s t : String) : Bool :=
  s.toList.map Char.toLower == t.toList.map Char.toLower

/-- The first library with a name, whatever the case of its ASCII letters. -/
def findLibrary (t : Table) (name : String) : Option Library :=
  t.libraries.find? fun l => l.name.any (sameIgnoringCase name)

end Table

end PeCoff.Import
