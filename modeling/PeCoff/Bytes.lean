/-!
# Byte strings

Byte strings as lists, their zero extension to an infinite sequence, the cuts that decoders make
at a zero byte or at a fixed stride, and the little-endian reading of a byte string as a number.
The main statements are that `littleEndian` and `ofLittleEndian` are inverse to each other on
strings of one width, and that a string has the bytes of its zero extension.
-/

namespace PeCoff

/-- A finite string of bytes. -/
abbrev Bytes := List UInt8

namespace Bytes

/-- The bytes of the string, followed by zeros without end. -/
def zeroExtended (bs : Bytes) (i : Nat) : UInt8 :=
  bs.getD i 0

/-- The bytes before the first zero byte; the whole string when it has none. -/
def untilZero (bs : Bytes) : Bytes :=
  bs.takeWhile (· != 0)

/-- The first `count` rows of `n` bytes, laid end to end. -/
def takeRows (n : Nat) : (count : Nat) → Bytes → List Bytes
  | 0, _ => []
  | count + 1, bs => bs.take n :: takeRows n count (bs.drop n)

/-- The string cut into rows of `n` bytes, of which the last may be shorter. -/
def rows (n : Nat) (bs : Bytes) : List Bytes :=
  takeRows n ((bs.length + n - 1) / n) bs

/-- The string cut into as many rows of exactly `n` bytes as fit; a shorter rest is dropped. -/
def exactRows (n : Nat) (bs : Bytes) : List Bytes :=
  takeRows n (bs.length / n) bs

/-- As many rows are taken as were asked for. -/
@[simp] theorem length_takeRows (n count : Nat) (bs : Bytes) :
    (takeRows n count bs).length = count := by
  induction count generalizing bs with
  | zero => rfl
  | succ count ih => simp [takeRows, ih]

/-- Row `k` starts `n * k` bytes in. -/
theorem getElem_takeRows (n count : Nat) (bs : Bytes) (k : Nat)
    (h : k < (takeRows n count bs).length) :
    (takeRows n count bs)[k] = (bs.drop (n * k)).take n := by
  induction count generalizing bs k with
  | zero => simp at h
  | succ count ih =>
    cases k with
    | zero => simp [takeRows]
    | succ k =>
      simp only [takeRows, List.getElem_cons_succ]
      rw [ih, List.drop_drop, Nat.mul_succ, Nat.add_comm]

/-- The `n` bytes at offset `i`, when all of them are there. -/
def slice? (bs : Bytes) (i n : Nat) : Option Bytes :=
  let part := (bs.drop i).take n
  if part.length = n ∧ i ≤ bs.length then some part else none

/-! ## Little-endian numbers -/

/-- The number whose base-256 digits are the bytes, least significant first. -/
def littleEndian : Bytes → Nat
  | [] => 0
  | b :: bs => b.toNat + 256 * littleEndian bs

/-- The first number that does not fit into `width` bytes. -/
def capacity : (width : Nat) → Nat
  | 0 => 1
  | width + 1 => 256 * capacity width

/-- The `width` least significant base-256 digits of a number, least significant first. -/
def ofLittleEndian : (width : Nat) → Nat → Bytes
  | 0, _ => []
  | width + 1, n => UInt8.ofNat n :: ofLittleEndian width (n / 256)

/-- A number is written in as many bytes as its width says. -/
@[simp] theorem length_ofLittleEndian (width n : Nat) :
    (ofLittleEndian width n).length = width := by
  induction width generalizing n with
  | zero => rfl
  | succ width ih => simp [ofLittleEndian, ih]

/-- The number that a byte string holds fits into as many bytes. -/
theorem littleEndian_lt (bs : Bytes) : littleEndian bs < capacity bs.length := by
  induction bs with
  | nil => simp [littleEndian, capacity]
  | cons b bs ih =>
    have hb := b.toNat_lt
    simp only [littleEndian, capacity, List.length_cons]
    omega

/-- Reading the written digits keeps the number modulo what fits into them. -/
theorem littleEndian_ofLittleEndian (width n : Nat) :
    littleEndian (ofLittleEndian width n) = n % capacity width := by
  induction width generalizing n with
  | zero => simp [ofLittleEndian, littleEndian, capacity, Nat.mod_one]
  | succ width ih =>
    simp only [ofLittleEndian, littleEndian, capacity, ih, UInt8.toNat_ofNat']
    rw [Nat.mod_mul]

/-- Writing the number that was read gives the string back. -/
theorem ofLittleEndian_littleEndian (bs : Bytes) :
    ofLittleEndian bs.length (littleEndian bs) = bs := by
  induction bs with
  | nil => rfl
  | cons b bs ih =>
    have hb := b.toNat_lt
    simp only [List.length_cons, littleEndian, ofLittleEndian]
    congr 1
    · apply UInt8.toNat_inj.mp
      simp only [UInt8.toNat_ofNat']
      omega
    · rw [show (b.toNat + 256 * littleEndian bs) / 256 = littleEndian bs by omega, ih]

/-! ## The zero extension -/

/-- Within a byte string its own bytes are read. -/
theorem zeroExtended_of_lt (bs : Bytes) (i : Nat) (h : i < bs.length) :
    bs.zeroExtended i = bs[i] := by
  simp [zeroExtended, List.getD_eq_getElem?_getD, h]

/-- Past the end of a byte string zeros are read. -/
theorem zeroExtended_of_length_le (bs : Bytes) (i : Nat) (h : bs.length ≤ i) :
    bs.zeroExtended i = 0 := by
  simp [zeroExtended, List.getD_eq_getElem?_getD, h]

/-- A string consists of the first bytes of its zero extension. -/
theorem map_zeroExtended (bs : Bytes) (n : Nat) (h : n ≤ bs.length) :
    (List.range n).map bs.zeroExtended = bs.take n := by
  apply List.ext_getElem
  · simp [h]
  · intro i h₁ h₂
    have hi : i < bs.length := by simp at h₁; omega
    simp [zeroExtended_of_lt bs i hi]

end Bytes

end PeCoff
