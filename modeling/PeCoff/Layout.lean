import PeCoff.Bytes
import PeCoff.Error

/-!
# Layouts of fixed-size records

A layout says once where each field of a record lies, and gives both directions: reading the record
from a byte sequence and writing it as bytes. Reading takes an infinite sequence, so that a record
cut short reads as if zeros followed it. The main statements are that what was written reads back,
that writing what was read gives the bytes again, and that bytes past the record have no influence.
-/

namespace PeCoff

/-- Where the fields of a record of type `α` lie, as a reader and a writer that agree. -/
structure Layout (α : Type) where
  /-- The number of bytes of the record. -/
  size : Nat
  /-- The record at the front of a byte sequence. -/
  read : (Nat → UInt8) → α
  /-- The bytes of a record. -/
  write : α → Bytes
  /-- A written record reads back. -/
  read_write : ∀ a, read (Bytes.zeroExtended (write a)) = a
  /-- Each byte of the record is written from what was read of it. -/
  write_read : ∀ f, write (read f) = (List.range size).map f

namespace Layout

variable {α β : Type}

/-- A record is written in as many bytes as its layout has. -/
@[simp] theorem length_write (l : Layout α) (a : α) : (l.write a).length = l.size := by
  have h := l.write_read (Bytes.zeroExtended (l.write a))
  rw [l.read_write] at h
  rw [h]
  simp

/-- Reading depends on the bytes of the record alone. -/
theorem read_congr (l : Layout α) {f g : Nat → UInt8} (h : ∀ i < l.size, f i = g i) :
    l.read f = l.read g := by
  have hw : l.write (l.read f) = l.write (l.read g) := by
    rw [l.write_read, l.write_read]
    exact List.map_congr_left fun i hi => h i (List.mem_range.mp hi)
  rw [← l.read_write (l.read f), hw, l.read_write]

/-- A record of a string is also one of a shorter front that still holds it. -/
theorem read_take (l : Layout α) (bs : Bytes) {n : Nat} (h : l.size ≤ n) :
    l.read (Bytes.zeroExtended (bs.take n)) = l.read bs.zeroExtended := by
  apply l.read_congr
  intro i hi
  have hn : i < n := Nat.lt_of_lt_of_le hi h
  simp [Bytes.zeroExtended, List.getD_eq_getElem?_getD, hn]

/-- A written record reads back whatever bytes follow it. -/
theorem read_write_append (l : Layout α) (a : α) (rest : Bytes) :
    l.read (Bytes.zeroExtended (l.write a ++ rest)) = a := by
  rw [← l.read_write a]
  apply l.read_congr
  intro i hi
  rw [l.read_write, Bytes.zeroExtended_of_lt _ _ (by simp; omega),
    Bytes.zeroExtended_of_lt _ _ (by simpa using hi), List.getElem_append_left]

/-- Writing a record that was read in full gives its bytes. -/
theorem write_read_bytes (l : Layout α) (bs : Bytes) (h : l.size ≤ bs.length) :
    l.write (l.read bs.zeroExtended) = bs.take l.size := by
  rw [l.write_read, Bytes.map_zeroExtended bs l.size h]

/-- The record at the front of a byte string, when all of its bytes are there. -/
def decode? (l : Layout α) (bs : Bytes) : Option α :=
  let front : Bytes := bs.take l.size
  if front.length = l.size then some (l.read front.zeroExtended) else none

/-- Only the bytes of the record matter: the string may be longer. -/
theorem decode?_eq (l : Layout α) (bs : Bytes) :
    l.decode? bs = if l.size ≤ bs.length then some (l.read bs.zeroExtended) else none := by
  simp only [decode?, List.length_take, l.read_take bs (Nat.le_refl _)]
  by_cases h : l.size ≤ bs.length
  · rw [if_pos (Nat.min_eq_left h), if_pos h]
  · rw [if_neg (by omega), if_neg h]

/-- What is decoded takes all bytes of its layout. -/
theorem size_le_of_decode? (l : Layout α) {bs : Bytes} {a : α} (h : l.decode? bs = some a) :
    l.size ≤ bs.length := by
  rw [decode?_eq] at h
  split at h
  · assumption
  · simp at h

/-- The record at the front of a byte string, or how many bytes it lacks. -/
def decode (l : Layout α) (bs : Bytes) : Except DecodeError α :=
  match l.decode? bs with
  | some a => .ok a
  | none => .error (.tooShort l.size bs.length)

/-- The records of a byte string laid end to end; a shorter rest is dropped. -/
def decodeAll (l : Layout α) (bs : Bytes) : List α :=
  (bs.exactRows l.size).map fun row => l.read row.zeroExtended

/-! ## Numbers -/

/-- A little-endian number of `size` bytes, held in a type with as many values. -/
def number (size : Nat) (toNat : α → Nat) (ofNat : Nat → α)
    (toNat_lt : ∀ a, toNat a < Bytes.capacity size) (ofNat_toNat : ∀ a, ofNat (toNat a) = a)
    (toNat_ofNat : ∀ n < Bytes.capacity size, toNat (ofNat n) = n) : Layout α where
  size := size
  read f := ofNat (Bytes.littleEndian ((List.range size).map f))
  write a := Bytes.ofLittleEndian size (toNat a)
  read_write a := by
    rw [Bytes.map_zeroExtended _ _ (by simp), List.take_of_length_le (by simp),
      Bytes.littleEndian_ofLittleEndian, Nat.mod_eq_of_lt (toNat_lt a), ofNat_toNat]
  write_read f := by
    have h := Bytes.littleEndian_lt ((List.range size).map f)
    rw [List.length_map, List.length_range] at h
    have h' := Bytes.ofLittleEndian_littleEndian ((List.range size).map f)
    rw [List.length_map, List.length_range] at h'
    rw [toNat_ofNat _ h, h']

/-- One byte. -/
def u8 : Layout UInt8 :=
  number 1 UInt8.toNat UInt8.ofNat UInt8.toNat_lt (fun _ => UInt8.ofNat_toNat)
    fun _ h => UInt8.toNat_ofNat_of_lt h

/-- A 16-bit number. -/
def u16 : Layout UInt16 :=
  number 2 UInt16.toNat UInt16.ofNat UInt16.toNat_lt (fun _ => UInt16.ofNat_toNat)
    fun _ h => UInt16.toNat_ofNat_of_lt h

/-- A 32-bit number. -/
def u32 : Layout UInt32 :=
  number 4 UInt32.toNat UInt32.ofNat UInt32.toNat_lt (fun _ => UInt32.ofNat_toNat)
    fun _ h => UInt32.toNat_ofNat_of_lt h

/-- A 64-bit number. -/
def u64 : Layout UInt64 :=
  number 8 UInt64.toNat UInt64.ofNat UInt64.toNat_lt (fun _ => UInt64.ofNat_toNat)
    fun _ h => UInt64.toNat_ofNat_of_lt h

/-! ## Composition -/

/-- Behind a first byte string the bytes of the second one are read. -/
theorem zeroExtended_append_right (xs ys : Bytes) (i : Nat) :
    Bytes.zeroExtended (xs ++ ys) (xs.length + i) = ys.zeroExtended i := by
  simp [Bytes.zeroExtended, List.getD_eq_getElem?_getD, List.getElem?_append_right]

/-- Two records, one after the other. -/
def pair (l : Layout α) (r : Layout β) : Layout (α × β) where
  size := l.size + r.size
  read f := (l.read f, r.read fun i => f (l.size + i))
  write p := l.write p.1 ++ r.write p.2
  read_write p := by
    have h : (fun i => Bytes.zeroExtended (l.write p.1 ++ r.write p.2) (l.size + i)) =
        Bytes.zeroExtended (r.write p.2) := by
      funext i
      rw [← l.length_write p.1, zeroExtended_append_right]
    rw [h, l.read_write_append, r.read_write]
  write_read f := by
    rw [l.write_read, r.write_read, List.range_add, List.map_append, List.map_map]
    rfl

/-- The same bytes, seen as the fields of another type. -/
def equiv (l : Layout α) (build : α → β) (parts : β → α) (build_parts : ∀ b, build (parts b) = b)
    (parts_build : ∀ a, parts (build a) = a) : Layout β where
  size := l.size
  read f := build (l.read f)
  write b := l.write (parts b)
  read_write b := by rw [l.read_write, build_parts]
  write_read f := by rw [parts_build, l.write_read]

/-- The empty record. -/
def unit : Layout Unit where
  size := 0
  read _ := ()
  write _ := []
  read_write _ := rfl
  write_read _ := rfl

/-- `n` records of one kind, one after the other. -/
def vector (l : Layout α) : (n : Nat) → Layout (Vector α n)
  | 0 => unit.equiv (fun _ => #v[]) (fun _ => ()) (fun v => by simp) fun _ => rfl
  | n + 1 => ((l.vector n).pair l).equiv (fun p => p.1.push p.2) (fun v => (v.pop, v.back))
      (fun v => by simp) fun p => by ext1 <;> simp [Vector.back]

/-- A row of records takes the bytes of each of them. -/
theorem size_vector (l : Layout α) (n : Nat) : (l.vector n).size = n * l.size := by
  induction n with
  | zero => simp [vector, equiv, unit]
  | succ n ih =>
    rw [Nat.succ_mul, ← ih]
    rfl

end Layout

end PeCoff
