import PeCoff.Image
import PeCoff.Text.Unicode

/-!
# Memory

A memory answers requests for the bytes at an address, or says that they are not there. Addresses
are natural numbers, so that no sum of an address and an offset wraps unless a decoder says so. What
a decoder may address lies below `addressLimit`. Tables without a declared length and strings are
followed element by element; the main definitions are `walk`, which stops at the address limit for
every memory whatsoever, and `string`, which finds the length byte by byte and reads once.
-/

namespace PeCoff

/-- The bytes at an address, of a given length, when they are there. -/
abbrev Memory := (address length : Nat) → Option Bytes

/-- The first number that is not an address. -/
def addressLimit : Nat := 0x100000000

namespace Memory

/-- The memory in which the addresses are the offsets of a file. Address zero may be kept
unreadable, as it is in a loaded image. -/
def flat (image : Image) (zeroReadable : Bool) : Memory := fun address length =>
  if address = 0 ∧ !zeroReadable then none else image.read address length

/-- The record at an address. -/
def record? {α : Type} (memory : Memory) (l : Layout α) (address : Nat) : Option α :=
  (memory address l.size).bind l.decode?

/-- The number of a pointer's width at an address. -/
def pointer? (memory : Memory) (wide : Bool) (address : Nat) : Option UInt64 :=
  if wide then memory.record? .u64 address
  else (memory.record? .u32 address).map UInt32.toUInt64

/-- The width of a pointer in bytes. -/
def pointerWidth (wide : Bool) : Nat :=
  if wide then 8 else 4

/-- How many readable bytes other than zero lie at an address and after it, counted up to a
limit. -/
def stringLength (memory : Memory) : (limit : Nat) → (address : Nat) → Nat
  | 0, _ => 0
  | limit + 1, address =>
    if addressLimit ≤ address then 0
    else
      match memory address 1 with
      | none => 0
      | some bs => if bs = [0] then 0 else stringLength memory limit (address + 1) + 1

/-- The zero-terminated string at an address. An empty string needs one readable byte. -/
def string (memory : Memory) (address : Nat) : Option Bytes :=
  match memory.stringLength Image.maxString address with
  | 0 => (memory address 1).map fun _ => []
  | length + 1 => memory address (length + 1)

/-- The string at an address as text. -/
def text (memory : Memory) (address : Nat) : Option String :=
  (memory.string address).map Text.ofUtf8

end Memory

/-- The elements of a table without a declared length: what `element` finds at `address` and at
each further stride, up to the first address where it finds nothing or the address limit. -/
def walk {α : Type} (stride : Nat) (element : Nat → Option α) (address : Nat) : List α :=
  if _h : 0 < stride ∧ address < addressLimit then
    match element address with
    | none => []
    | some a => a :: walk stride element (address + stride)
  else
    []
termination_by addressLimit - address

/-- Each element of a walk was found at its own place, a whole number of strides in. -/
theorem getElem?_walk {α : Type} (stride : Nat) (element : Nat → Option α) (address k : Nat) (a : α)
    (h : (walk stride element address)[k]? = some a) :
    element (address + k * stride) = some a ∧ address + k * stride < addressLimit := by
  induction k generalizing address with
  | zero =>
    rw [walk] at h
    split at h
    · rename_i hs
      split at h
      · simp at h
      · simp_all
    · simp at h
  | succ k ih =>
    rw [walk] at h
    split at h
    · split at h
      · simp at h
      · have := ih (address + stride) (by simpa using h)
        rw [Nat.succ_mul, Nat.add_comm (k * stride), ← Nat.add_assoc]
        exact this
    · simp at h

end PeCoff
