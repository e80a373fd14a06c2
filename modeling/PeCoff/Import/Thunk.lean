import PeCoff.Memory

/-!
# Thunks

A thunk names one imported function, by ordinal when its highest bit is set and else by the address
of a hint and a name. The thunks of a library form an array that ends at a zero, or where it can no
longer be read.
-/

namespace PeCoff.Import

/-- One imported function. -/
inductive Thunk where
  | ordinal (ordinal : UInt16)
  /-- A function by name; `data` is the low half of the thunk itself. -/
  | named (hint : UInt16) (name : String) (data : UInt32)
  /-- A function by name whose name cannot be read. -/
  | unresolved (data : UInt32)
  deriving DecidableEq, Repr

namespace Thunk

/-- Whether a thunk names its function by ordinal. -/
def isOrdinal (wide : Bool) (value : UInt64) : Bool :=
  if wide then value &&& 0x8000000000000000 != 0 else value &&& 0x80000000 != 0

/-- The hint and the name at an address. -/
def hintName? (memory : Memory) (address : Nat) : Option (UInt16 × String) := do
  let hint ← memory.record? .u16 address
  guard (address + 2 < addressLimit)
  let name ← memory.text (address + 2)
  return (hint, name)

/-- The function that a thunk names. The bias is taken off the thunk before it is used as an
address; of what remains the low half counts. -/
def decode (memory : Memory) (wide : Bool) (bias value : UInt64) : Thunk :=
  if isOrdinal wide value then .ordinal value.toUInt16
  else
    let found :=
      if bias ≤ value then hintName? memory (value - bias).toUInt32.toNat else none
    match found with
    | some (hint, name) => .named hint name value.toUInt32
    | none => .unresolved value.toUInt32

/-- The thunk at an address, unless there is a zero or nothing to read. -/
def at? (memory : Memory) (wide : Bool) (bias : UInt64) (address : Nat) : Option Thunk := do
  let value ← memory.pointer? wide address
  guard (value ≠ 0)
  return decode memory wide bias value

/-- The thunks of an array, if its first one can be read. -/
def array (memory : Memory) (wide : Bool) (bias : UInt64) (address : Nat) :
    Option (List Thunk) := do
  let _ ← memory.pointer? wide address
  return walk (Memory.pointerWidth wide) (at? memory wide bias) address

end Thunk

end PeCoff.Import
