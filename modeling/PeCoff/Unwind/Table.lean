import PeCoff.Memory
import PeCoff.Unwind.Code

/-!
# Exception tables

The exception directory is an array of functions, each with the address of its unwind information.
The information is a header of four bytes, the slots of the unwind codes, and a trailer that starts
at an even slot. Addresses of slots and trailer wrap at 32 bits.
-/

namespace PeCoff.Unwind

/-- An entry of the exception directory. -/
structure RuntimeFunction where
  /-- The address of the function. -/
  start : UInt32
  /-- The address after the function. -/
  stop : UInt32
  /-- The address of its unwind information. -/
  unwindInfo : UInt32
  deriving DecidableEq, Repr

namespace RuntimeFunction

/-- The places of the fields. -/
def layout : Layout RuntimeFunction :=
  (Layout.u32.pair <| Layout.u32.pair .u32).equiv (fun (a, b, c) => ⟨a, b, c⟩)
    (fun f => (f.start, f.stop, f.unwindInfo)) (fun _ => rfl) (fun _ => rfl)

/-- Whether another entry takes the place of the unwind information. -/
def isChained (f : RuntimeFunction) : Bool :=
  f.unwindInfo &&& 1 != 0

/-- The address of the entry that takes the place of the unwind information. -/
def chainAddress (f : RuntimeFunction) : UInt32 :=
  f.unwindInfo &&& ~~~1

/-- The number of bytes of the function, zero when it ends before it starts. -/
def size (f : RuntimeFunction) : Nat :=
  f.stop.toNat - f.start.toNat

end RuntimeFunction

/-- What follows the unwind codes. -/
inductive Trailer where
  /-- The function that this one continues. -/
  | chain (function : RuntimeFunction)
  /-- The address of a handler, and that of the data for it. -/
  | handler (handler data : UInt32)
  | none
  /-- There should be a trailer, but it cannot be read. -/
  | unavailable
  deriving DecidableEq, Repr

/-- The unwind information of a function. -/
structure Info where
  version : UInt8
  flags : UInt8
  sizeOfProlog : UInt8
  /-- The number of slots of the unwind codes. -/
  slotCount : UInt8
  /-- The frame register, zero when there is none. -/
  frameRegister : UInt8
  /-- The distance of the frame from the stack in units of sixteen bytes. -/
  frameOffset : UInt8
  codes : List Code
  /-- Whether the last code is cut off. -/
  truncated : Bool
  trailer : Trailer
  deriving DecidableEq, Repr

namespace Info

/-- The number of bytes before the unwind codes. -/
def headerSize : Nat := 4

/-- The flag of a handler for exceptions. -/
def exceptionFlag : UInt8 := 1

/-- The flag of a handler for termination. -/
def terminationFlag : UInt8 := 2

/-- The flag of a function that continues another one. -/
def chainFlag : UInt8 := 4

/-- Whether a flag is set in a flag word. -/
def hasFlag (flags flag : UInt8) : Bool :=
  flags &&& flag != 0

/-- Whether a flag word declares a handler. -/
def declaresHandler (flags : UInt8) : Bool :=
  hasFlag flags exceptionFlag || hasFlag flags terminationFlag

/-- Whether the information has a handler. -/
def hasHandler (i : Info) : Bool :=
  declaresHandler i.flags

/-- Whether the function continues another one. -/
def isChained (i : Info) : Bool :=
  hasFlag i.flags chainFlag

end Info

/-- The slot at which the trailer starts: the number of slots, made even. -/
def trailerSlot (slotCount : UInt8) : Nat :=
  (slotCount.toNat + 1) / 2 * 2

/-- What the unwind address of a function leads to. -/
inductive Detail where
  /-- Another entry, if it can be read. -/
  | chained (function : Option RuntimeFunction)
  | info (info : Info)
  | unknownVersion (version : UInt8)
  | unavailable
  deriving DecidableEq, Repr

namespace Detail

/-- The trailer at an address, as the flags declare it. A chained function takes precedence over a
handler. -/
def trailerAt (memory : Memory) (flags : UInt8) (address : UInt32) : Trailer :=
  if Info.hasFlag flags Info.chainFlag then
    match memory.record? RuntimeFunction.layout address.toNat with
    | some function => .chain function
    | none => .unavailable
  else if Info.declaresHandler flags then
    match memory.record? .u32 address.toNat with
    | some handler => .handler handler (address + 4)
    | none => .unavailable
  else
    .none

/-- The slots at an address. No slots need no memory. -/
def slotsAt (memory : Memory) (address : UInt32) (count : UInt8) : Option (List Slot) :=
  if count = 0 then some [] else (memory address.toNat (count.toNat * 2)).map Slot.ofBytes

/-- The unwind information at an address. -/
def infoAt (memory : Memory) (address : UInt32) : Detail :=
  match memory address.toNat Info.headerSize with
  | none => .unavailable
  | some header =>
    let f := Bytes.zeroExtended header
    let version := f 0 &&& 7
    if version ≠ 1 then .unknownVersion version
    else
      let flags := f 0 >>> 3
      let slotsAddress := address + 4
      match slotsAt memory slotsAddress (f 2) with
      | none => .unavailable
      | some slots =>
        let (codes, truncated) := Code.decode slots
        .info {
          version
          flags
          sizeOfProlog := f 1
          slotCount := f 2
          frameRegister := f 3 &&& 15
          frameOffset := f 3 >>> 4
          codes
          truncated
          trailer :=
            trailerAt memory flags (slotsAddress + UInt32.ofNat (trailerSlot (f 2) * 2)) }

/-- What the unwind address of a function leads to. -/
def ofFunction (memory : Memory) (function : RuntimeFunction) : Detail :=
  if function.isChained then
    .chained (memory.record? RuntimeFunction.layout function.chainAddress.toNat)
  else
    infoAt memory function.unwindInfo

end Detail

/-- An entry of the exception directory and what its unwind address leads to. -/
structure Entry where
  function : RuntimeFunction
  detail : Detail
  deriving DecidableEq, Repr

/-- The entries of an exception directory. -/
def decodeTable (memory : Memory) (bs : Bytes) : List Entry :=
  (RuntimeFunction.layout.decodeAll bs).map fun function =>
    ⟨function, Detail.ofFunction memory function⟩

end PeCoff.Unwind
