import Mathlib
import PeCoff.Executable

/-!
# Exact memories

A memory is exact when it never answers a request with more or fewer bytes than were asked for. The
memory of an executable and the flat memory of a file are exact, since both read whole ranges of a
file. Exactness is what turns the declared length of a table into the length of what is decoded, and
what is read of a record or a number into its bytes (`record?_eq_some_iff`, `pointer?_eq_some_iff`).
-/

namespace PeCoff

/-- A range that is read has the length that was asked for. -/
lemma Image.length_read {image : Image} {offset n : Nat} {bs : Bytes}
    (h : image.read offset n = some bs) : bs.length = n := by
  obtain ⟨hle, rfl⟩ := (image.read_eq_some_iff offset n bs).mp h
  have hsize := image.length_toList
  simp only [List.length_take, List.length_drop]
  omega

/-- What is read of a file are its bytes. -/
lemma Image.getElem?_of_read {image : Image} {offset n i : Nat} {bs : Bytes}
    (h : image.read offset n = some bs) (hi : i < n) : image.toList[offset + i]? = bs[i]? := by
  obtain ⟨-, rfl⟩ := (image.read_eq_some_iff offset n bs).mp h
  rw [List.getElem?_take_of_lt hi, List.getElem?_drop]

/-- A piece of a range that is read is the piece of what is read. -/
lemma Image.read_piece {image : Image} {offset length skip n : Nat} {bs : Bytes}
    (h : image.read offset length = some bs) (hle : skip + n ≤ length) :
    image.read (offset + skip) n = some ((bs.drop skip).take n) := by
  obtain ⟨hend, rfl⟩ := (image.read_eq_some_iff offset length bs).mp h
  refine (image.read_eq_some_iff _ _ _).mpr ⟨by omega, ?_⟩
  rw [List.drop_take, List.drop_drop, List.take_take, Nat.min_eq_left (by omega)]

/-- Each row of a byte string is decoded to one record. -/
@[simp] lemma Layout.length_decodeAll {α : Type} (l : Layout α) (bs : Bytes) :
    (l.decodeAll bs).length = bs.length / l.size := by
  simp [decodeAll, Bytes.exactRows]

namespace Memory

/-- The memory answers each request with as many bytes as were asked for, or not at all. -/
def Exact (memory : Memory) : Prop :=
  ∀ address n bs, memory address n = some bs → bs.length = n

variable {memory : Memory} {wide : Bool} {address : Nat} {value : UInt64}

/-! ## Records -/

section

variable {α : Type} {l : Layout α} {a : α}

/-- A record is read where its bytes are. -/
lemma record?_eq_some (h : memory address l.size = some (l.write a)) :
    memory.record? l address = some a := by
  rw [record?, h, Option.bind_some, l.decode?_eq, if_pos (l.length_write a).ge, l.read_write]

/-- No record is read where nothing is. -/
lemma record?_eq_none (h : memory address l.size = none) : memory.record? l address = none := by
  rw [record?, h, Option.bind_none]

/-- In an exact memory a record is read exactly where its bytes are. -/
lemma record?_eq_some_iff (hexact : memory.Exact) :
    memory.record? l address = some a ↔ memory address l.size = some (l.write a) := by
  refine ⟨fun h => ?_, record?_eq_some⟩
  obtain ⟨bs, hbs, hdecode⟩ := Option.bind_eq_some_iff.mp h
  have hlength := hexact _ _ _ hbs
  rw [l.decode?_eq, if_pos hlength.ge] at hdecode
  have hwrite := l.write_read_bytes bs hlength.ge
  rw [Option.some.inj hdecode, List.take_of_length_le hlength.le] at hwrite
  rw [hbs, hwrite]

end

/-! ## Numbers -/

/-- The bytes of a number of a pointer's width. -/
def pointerBytes (wide : Bool) (value : UInt64) : Bytes :=
  if wide then Layout.u64.write value else Layout.u32.write value.toUInt32

/-- A pointer is written in as many bytes as its width says. -/
@[simp] lemma length_pointerBytes (wide : Bool) (value : UInt64) :
    (pointerBytes wide value).length = pointerWidth wide := by
  cases wide <;> exact Layout.length_write _ _

/-- A number has a pointer's width. -/
def FitsPointer (wide : Bool) (value : UInt64) : Prop :=
  wide ∨ value.toNat < 2 ^ 32

/-- A number of a pointer's width has at most as many bits. -/
lemma FitsPointer.toNat_lt (h : FitsPointer wide value) :
    value.toNat < 2 ^ (8 * pointerWidth wide) := by
  cases wide with
  | true => exact value.toNat_lt
  | false => exact h.resolve_left Bool.false_ne_true

/-- A number of a pointer's width is read where its bytes are. -/
lemma pointer?_eq_some (hfits : FitsPointer wide value)
    (h : memory address (pointerWidth wide) = some (pointerBytes wide value)) :
    memory.pointer? wide address = some value := by
  cases wide with
  | true => exact record?_eq_some (l := .u64) h
  | false =>
    have hnarrow : memory.record? .u32 address = some value.toUInt32 :=
      record?_eq_some (l := .u32) h
    rw [pointer?, if_neg Bool.false_ne_true, hnarrow, Option.map_some, Option.some_inj,
      ← UInt64.toNat_inj, UInt32.toNat_toUInt64, UInt64.toNat_toUInt32]
    exact Nat.mod_eq_of_lt (hfits.resolve_left Bool.false_ne_true)

/-- No number is read where nothing is. -/
lemma pointer?_eq_none (h : memory address (pointerWidth wide) = none) :
    memory.pointer? wide address = none := by
  cases wide with
  | true => exact record?_eq_none (l := .u64) h
  | false =>
    have hnarrow : memory.record? .u32 address = none := record?_eq_none (l := .u32) h
    rw [pointer?, if_neg Bool.false_ne_true, hnarrow, Option.map_none]

/-- In an exact memory a number is read exactly where its bytes are, and has a pointer's width. -/
lemma pointer?_eq_some_iff (hexact : memory.Exact) :
    memory.pointer? wide address = some value ↔ FitsPointer wide value ∧
      memory address (pointerWidth wide) = some (pointerBytes wide value) := by
  refine ⟨fun h => ?_, fun h => pointer?_eq_some h.1 h.2⟩
  cases wide with
  | true => exact ⟨.inl rfl, (record?_eq_some_iff (l := .u64) hexact).mp h⟩
  | false =>
    rw [pointer?, if_neg Bool.false_ne_true, Option.map_eq_some_iff] at h
    obtain ⟨low, hlow, rfl⟩ := h
    refine ⟨.inr (UInt32.toNat_toUInt64 low ▸ low.toNat_lt), ?_⟩
    rw [pointerBytes, if_neg Bool.false_ne_true, UInt32.toUInt32_toUInt64]
    exact (record?_eq_some_iff (l := .u32) hexact).mp hlow

/-! ## Memories of files -/

/-- The flat memory of a file is exact. -/
lemma flat_exact (image : Image) (zeroReadable : Bool) : (flat image zeroReadable).Exact := by
  intro address n bs h
  unfold flat at h
  split at h
  · exact absurd h (by simp)
  · exact Image.length_read h

end Memory

/-- The memory of an executable is exact. -/
lemma Executable.memory_exact (e : Executable) : e.memory.Exact := by
  intro address n bs h
  obtain ⟨offset, _, hread⟩ := Option.bind_eq_some_iff.mp h
  exact Image.length_read hread

end PeCoff
