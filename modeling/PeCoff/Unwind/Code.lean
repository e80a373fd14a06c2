import PeCoff.Bytes

/-!
# Unwind codes

The unwind codes of a function undo its prolog. They are kept in 16-bit slots: the first slot of a
code holds its place in the prolog, an operation and four bits of information, and up to two more
hold an operand. An array whose last operand is cut off is truncated; all codes before it count.
-/

namespace PeCoff.Unwind

/-- Two bytes of the code array. -/
structure Slot where
  low : UInt8
  high : UInt8
  deriving DecidableEq, Repr

namespace Slot

/-- The slots of a byte string; an odd last byte is dropped. -/
def ofBytes : Bytes → List Slot
  | low :: high :: rest => ⟨low, high⟩ :: ofBytes rest
  | _ => []

/-- The operation of a first slot. -/
def operation (s : Slot) : Fin 16 :=
  ⟨s.high.toNat % 16, by omega⟩

/-- The information of a first slot. -/
def info (s : Slot) : Fin 16 :=
  ⟨s.high.toNat / 16, by have := s.high.toNat_lt; omega⟩

/-- The number that slots hold, least significant slot first. -/
def value : List Slot → Nat
  | [] => 0
  | s :: rest => s.low.toNat + 256 * s.high.toNat + 65536 * value rest

end Slot

/-- What an unwind code undoes. -/
inductive Operation where
  | push (register : Fin 16)
  /-- The stack grew by a number of bytes. -/
  | allocate (size : UInt32)
  | setFrameRegister
  /-- A register was saved at an offset of the stack. -/
  | save (register : Fin 16) (offset : UInt32)
  /-- A vector register was saved at an offset of the stack. -/
  | saveVector (register : Fin 16) (offset : UInt32)
  | pushMachineFrame (info : Fin 16)
  | unknown (code : Fin 16)
  deriving DecidableEq, Repr

namespace Operation

/-- How many slots the operand of an operation takes. -/
def operandSlots (code info : Fin 16) : Nat :=
  match code.val with
  | 1 => if info.val = 0 then 1 else 2
  | 4 | 8 => 1
  | 5 | 9 => 2
  | _ => 0

/-- The operation that a code, its information and its operand stand for. An operand of one slot is
scaled by the size of what is allocated or saved; one of two slots is not. -/
def ofParts (code info : Fin 16) (operand : Nat) : Operation :=
  match code.val with
  | 0 => push info
  | 1 => allocate (UInt32.ofNat (if info.val = 0 then operand * 8 else operand))
  | 2 => allocate (UInt32.ofNat ((info.val + 1) * 8))
  | 3 => setFrameRegister
  | 4 => save info (UInt32.ofNat (operand * 8))
  | 5 => save info (UInt32.ofNat operand)
  | 8 => saveVector info (UInt32.ofNat (operand * 16))
  | 9 => saveVector info (UInt32.ofNat operand)
  | 10 => pushMachineFrame info
  | _ => unknown code

end Operation

/-- An operation and its place in the prolog. -/
structure Code where
  offset : UInt8
  operation : Operation
  deriving DecidableEq, Repr

/-- The codes of an array of slots, and whether the last one is cut off. -/
def Code.decode : List Slot → List Code × Bool
  | [] => ([], false)
  | s :: rest =>
    let n := Operation.operandSlots s.operation s.info
    if (rest.take n).length < n then ([], true)
    else
      let operation := Operation.ofParts s.operation s.info (Slot.value (rest.take n))
      let (codes, truncated) := decode (rest.drop n)
      (⟨s.low, operation⟩ :: codes, truncated)
termination_by slots => slots.length
decreasing_by simp only [List.length_drop, List.length_cons]; omega

/-- The names of the registers. -/
def registerNames : List String :=
  ["rax", "rcx", "rdx", "rbx", "rsp", "rbp", "rsi", "rdi", "r8", "r9", "r10", "r11", "r12", "r13",
    "r14", "r15"]

/-- The name of a register; of its number four bits count. -/
def registerName (register : Nat) : String :=
  registerNames.getD (register % 16) ""

end PeCoff.Unwind
