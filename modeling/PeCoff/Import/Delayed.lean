import PeCoff.Import.Thunk

/-!
# Libraries loaded on first use

The delay-load directory lists libraries that are loaded when one of their functions is first
called. Its pointers are addresses relative to the image, or in the old form absolute addresses,
from which the image base is taken off.
-/

namespace PeCoff.Import

/-- How the pointers of a descriptor are meant. -/
inductive AddressingMode where
  /-- Relative to the image. -/
  | relative
  /-- Absolute, the image base included. -/
  | absolute
  deriving DecidableEq, Repr

/-- The entry of a library in the delay-load directory. -/
structure DelayedDescriptor where
  attributes : UInt32
  name : UInt32
  moduleHandle : UInt32
  addressTable : UInt32
  nameTable : UInt32
  boundAddressTable : UInt32
  unloadTable : UInt32
  timeDateStamp : UInt32
  deriving DecidableEq, Repr

namespace DelayedDescriptor

/-- The places of the fields. -/
def layout : Layout DelayedDescriptor :=
  open Layout in
  (u32.pair <| u32.pair <| u32.pair <| u32.pair <| u32.pair <| u32.pair <| u32.pair u32).equiv
    (fun (a, b, c, d, e, f, g, h) => ⟨a, b, c, d, e, f, g, h⟩)
    (fun d => (d.attributes, d.name, d.moduleHandle, d.addressTable, d.nameTable,
      d.boundAddressTable, d.unloadTable, d.timeDateStamp))
    (fun _ => rfl) (fun _ => rfl)

/-- Whether the descriptor ends the array. -/
def isTerminator (d : DelayedDescriptor) : Bool :=
  d.name == 0 || d.addressTable == 0 || d.nameTable == 0

/-- The lowest bit of the attributes tells how pointers are meant. -/
def mode (d : DelayedDescriptor) : AddressingMode :=
  if d.attributes &&& 1 ≠ 0 then .relative else .absolute

/-- What to take off each pointer. -/
def bias (d : DelayedDescriptor) (imageBase : UInt64) : UInt64 :=
  match d.mode with
  | .relative => 0
  | .absolute => imageBase

/-- A pointer of the descriptor as an address, unless it lies below the image base. -/
def toAddress (d : DelayedDescriptor) (imageBase : UInt64) (pointer : UInt32) : Option Nat :=
  let bias := (d.bias imageBase).toNat
  if bias ≤ pointer.toNat then some (pointer.toNat - bias) else none

end DelayedDescriptor

/-- A library that is loaded on first use. -/
structure DelayedLibrary where
  /-- The address of the descriptor. -/
  address : Nat
  descriptor : DelayedDescriptor
  /-- The name of the library, if it can be read. -/
  name : Option String
  /-- The functions, if their array can be read. -/
  thunks : Option (List Thunk)
  deriving DecidableEq, Repr

/-- The library whose descriptor lies at an address, unless the array ends there. -/
def DelayedLibrary.at? (memory : Memory) (wide : Bool) (imageBase : UInt64) (address : Nat) :
    Option DelayedLibrary := do
  let descriptor ← memory.record? DelayedDescriptor.layout address
  guard !descriptor.isTerminator
  return {
    address
    descriptor
    name := (descriptor.toAddress imageBase descriptor.name).bind memory.text
    thunks := (descriptor.toAddress imageBase descriptor.nameTable).bind
      (Thunk.array memory wide (descriptor.bias imageBase)) }

/-- The contents of a delay-load directory. -/
structure DelayedTable where
  /-- The declared size of the directory. -/
  size : UInt32
  libraries : List DelayedLibrary
  deriving DecidableEq, Repr

namespace DelayedTable

/-- The contents of the delay-load directory at an address. -/
def decode (memory : Memory) (wide : Bool) (imageBase : UInt64) (address size : UInt32) :
    DelayedTable where
  size
  libraries :=
    walk DelayedDescriptor.layout.size (DelayedLibrary.at? memory wide imageBase) address.toNat

/-- Whether nothing is loaded on first use. -/
def isEmpty (t : DelayedTable) : Bool :=
  t.libraries.isEmpty

end DelayedTable

end PeCoff.Import
