import PeCoff.Memory

/-!
# Thread-local storage

The directory of thread-local storage places the data that each thread gets a copy of, and an array
of functions to call when a thread starts or ends. All its addresses are absolute. There is a narrow
and a wide form; both are kept in wide fields.
-/

namespace PeCoff.ThreadStorage

/-- The header of the directory. -/
structure Directory where
  /-- The first address of the data that is copied. -/
  start : UInt64
  /-- The address after the data that is copied. -/
  stop : UInt64
  index : UInt64
  /-- The address of the array of functions. -/
  callbacks : UInt64
  sizeOfZeroFill : UInt32
  characteristics : UInt32
  deriving DecidableEq, Repr

namespace Directory

/-- The places of the fields in the wide form. -/
def wideLayout : Layout Directory :=
  open Layout in
  (u64.pair <| u64.pair <| u64.pair <| u64.pair <| u32.pair u32).equiv
    (fun (a, b, c, d, e, f) => ⟨a, b, c, d, e, f⟩)
    (fun d => (d.start, d.stop, d.index, d.callbacks, d.sizeOfZeroFill, d.characteristics))
    (fun _ => rfl) (fun _ => rfl)

/-- The places of the fields in the narrow form. -/
def narrowLayout : Layout (UInt32 × UInt32 × UInt32 × UInt32 × UInt32 × UInt32) :=
  open Layout in
  u32.pair <| u32.pair <| u32.pair <| u32.pair <| u32.pair u32

/-- The header with the fields of the narrow form. -/
def ofNarrow : UInt32 × UInt32 × UInt32 × UInt32 × UInt32 × UInt32 → Directory :=
  fun (start, stop, index, callbacks, zeroFill, characteristics) =>
    ⟨start.toUInt64, stop.toUInt64, index.toUInt64, callbacks.toUInt64, zeroFill, characteristics⟩

/-- The number of bytes of the header. -/
def size (wide : Bool) : Nat :=
  if wide then wideLayout.size else narrowLayout.size

/-- The header at the front of a byte string. -/
def decode (wide : Bool) (bs : Bytes) : Except DecodeError Directory :=
  if wide then wideLayout.decode bs else ofNarrow <$> narrowLayout.decode bs

/-- The number of bytes that are copied; it wraps at 64 bits. -/
def dataSize (d : Directory) : UInt64 :=
  d.stop - d.start

/-- The address of the array of functions, relative to an image base, when there is one. -/
def callbackArray? (d : Directory) (imageBase : UInt64) : Option Nat :=
  if d.callbacks ≠ 0 ∧ imageBase ≤ d.callbacks
      ∧ d.callbacks.toNat - imageBase.toNat < addressLimit then
    some (d.callbacks.toNat - imageBase.toNat)
  else
    none

end Directory

/-- The directory and the functions to call. -/
structure Info where
  directory : Directory
  callbacks : List UInt64
  deriving DecidableEq, Repr

namespace Info

/-- The function at an address of the array, unless the array ends there. -/
def callback? (memory : Memory) (wide : Bool) (address : Nat) : Option UInt64 := do
  let value ← memory.pointer? wide address
  guard (value ≠ 0)
  return value

/-- The functions of the array to which a directory refers. -/
def callbacksOf (memory : Memory) (wide : Bool) (imageBase : UInt64) (directory : Directory) :
    List UInt64 :=
  match directory.callbackArray? imageBase with
  | none => []
  | some address => walk (Memory.pointerWidth wide) (callback? memory wide) address

/-- The directory held by a byte string, with the functions that lie in memory. -/
def decode (memory : Memory) (wide : Bool) (imageBase : UInt64) (bs : Bytes) : Option Info := do
  let directory ← (Directory.decode wide bs).toOption
  return ⟨directory, callbacksOf memory wide imageBase directory⟩

end Info

end PeCoff.ThreadStorage
