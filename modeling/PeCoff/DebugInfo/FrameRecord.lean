import PeCoff.Layout

/-!
# Frame pointer records

A frame pointer record tells how a function without a frame pointer uses its stack.
-/

namespace PeCoff.DebugInfo

/-- The stack use of one function. -/
structure FrameRecord where
  start : UInt32
  size : UInt32
  /-- The size of the local variables in units of four bytes. -/
  locals : UInt32
  /-- The size of the parameters in units of four bytes. -/
  parameters : UInt16
  /-- The size of the prolog and five smaller fields. -/
  bits : UInt16
  deriving DecidableEq, Repr

namespace FrameRecord

/-- The places of the fields. -/
def layout : Layout FrameRecord :=
  open Layout in
  (u32.pair <| u32.pair <| u32.pair <| u16.pair u16).equiv
    (fun (a, b, c, d, e) => ⟨a, b, c, d, e⟩)
    (fun r => (r.start, r.size, r.locals, r.parameters, r.bits))
    (fun _ => rfl) (fun _ => rfl)

/-- The size of the prolog in bytes. -/
def prolog (r : FrameRecord) : Nat :=
  r.bits.toNat % 256

/-- The number of saved registers. -/
def registers (r : FrameRecord) : Nat :=
  r.bits.toNat / 256 % 8

/-- Whether the function handles exceptions. -/
def handlesExceptions (r : FrameRecord) : Bool :=
  r.bits.toNat.testBit 11

/-- Whether the function uses the base pointer for other purposes. -/
def usesBasePointer (r : FrameRecord) : Bool :=
  r.bits.toNat.testBit 12

/-- The kind of the frame. -/
def frame (r : FrameRecord) : Nat :=
  r.bits.toNat / 0x4000

/-- The name of the kind of the frame. -/
def frameName (r : FrameRecord) : String :=
  match r.frame with
  | 0 => "FPO"
  | 1 => "TRAP"
  | 2 => "TSS"
  | _ => "NONFPO"

end FrameRecord

end PeCoff.DebugInfo
