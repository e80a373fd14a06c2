import PeCoff.Layout

/-!
# File images

The bytes of a file, read by offset. A range is read whole or not at all, except by `clipped`, which
stops at the end of the file.
-/

namespace PeCoff

/-- The bytes of a file. -/
structure Image where
  bytes : ByteArray

namespace Image

/-- The number of bytes of the file. -/
def size (image : Image) : Nat :=
  image.bytes.size

/-- All bytes of the file. -/
def toList (image : Image) : Bytes :=
  image.bytes.data.toList

/-- The image that holds given bytes. -/
def ofList (bs : Bytes) : Image :=
  ⟨⟨bs.toArray⟩⟩

/-- The bytes at an offset up to a length or the end of the file, whichever comes first. -/
def clipped (image : Image) (offset length : Nat) : Bytes :=
  let start := min offset image.size
  (image.bytes.extract start (min (start + length) image.size)).data.toList

/-- The bytes at an offset, when the file holds all of them. -/
def read (image : Image) (offset length : Nat) : Option Bytes :=
  if offset + length ≤ image.size then some (image.clipped offset length) else none

/-- The bytes at an offset, or the reason why there are none. -/
def readExact (image : Image) (offset length : Nat) : Except DecodeError Bytes :=
  match image.read offset length with
  | some bs => .ok bs
  | none => .error (.outOfBounds offset image.size)

/-- The record at an offset, when the file holds all of it. -/
def record? {α : Type} (image : Image) (l : Layout α) (offset : Nat) : Option α :=
  (image.read offset l.size).map fun bs => l.read bs.zeroExtended

/-- The record at an offset, or the reason why there is none. -/
def record {α : Type} (image : Image) (l : Layout α) (offset : Nat) : Except DecodeError α :=
  match image.record? l offset with
  | some a => .ok a
  | none => .error (.outOfBounds offset image.size)

/-- The longest string that is followed to its end. -/
def maxString : Nat := 4096

/-- The string that starts at an offset. It ends before a zero byte, at the greatest length, or at
the end of the file; past the end there is none. -/
def stringAt (image : Image) (offset : Nat) : Option Bytes :=
  if offset < image.size then some (image.clipped offset maxString).untilZero else none

/-- The bytes from an offset up to the first zero byte or the end of the file. -/
def untilZero (image : Image) (offset : Nat) : Bytes :=
  if h : offset < image.bytes.size then
    let b := image.bytes[offset]
    if b = 0 then [] else b :: untilZero image (offset + 1)
  else
    []
termination_by image.bytes.size - offset

/-- A file has as many bytes as its size says. -/
@[simp] theorem length_toList (image : Image) : image.toList.length = image.size := by
  simp [toList, size]

/-- A file made of bytes holds these bytes. -/
theorem toList_ofList (bs : Bytes) : (ofList bs).toList = bs := by
  simp [ofList, toList]

/-- A file is made of its bytes. -/
theorem ofList_toList (image : Image) : ofList image.toList = image := by
  simp [ofList, toList]

/-- A file made of bytes is as large as there are bytes. -/
theorem size_ofList (bs : Bytes) : (ofList bs).size = bs.length := by
  rw [← length_toList, toList_ofList]

/-- A clipped range is a piece of the file. -/
theorem clipped_eq (image : Image) (offset length : Nat) :
    image.clipped offset length = (image.toList.drop offset).take length := by
  simp only [clipped, toList, ByteArray.data_extract, Array.toList_extract,
    List.extract_eq_take_drop]
  rcases Nat.le_total offset image.size with h | h
  · rw [Nat.min_eq_left h]
    rcases Nat.le_total (offset + length) image.size with h' | h'
    · rw [Nat.min_eq_left h', Nat.add_sub_cancel_left]
    · rw [Nat.min_eq_right h', List.take_of_length_le, List.take_of_length_le]
      · simp only [List.length_drop, Array.length_toList]
        simp only [size, ← ByteArray.size_data] at h'
        omega
      · simp only [List.length_drop, Array.length_toList]
        simp only [size, ← ByteArray.size_data]
        omega
  · have hd : image.bytes.data.toList.length ≤ offset := by
      simpa [size, ← ByteArray.size_data] using h
    rw [Nat.min_eq_right h, Nat.min_eq_right (Nat.le_add_right _ _), Nat.sub_self,
      List.drop_of_length_le hd]
    simp

/-- Reading a range gives a piece of the file, and succeeds exactly inside the file. -/
theorem read_eq_some_iff (image : Image) (offset length : Nat) (bs : Bytes) :
    image.read offset length = some bs ↔
      offset + length ≤ image.size ∧ bs = (image.toList.drop offset).take length := by
  unfold read
  split
  · rename_i h
    simp [h, clipped_eq, eq_comm]
  · rename_i h
    simp [h]

/-- Reading up to a zero byte is cutting the rest of the file there. -/
theorem untilZero_eq (image : Image) (offset : Nat) :
    image.untilZero offset = Bytes.untilZero (image.toList.drop offset) := by
  have hcons (i : Nat) (h : i < image.bytes.size) :
      image.toList.drop i = image.bytes[i] :: image.toList.drop (i + 1) :=
    List.drop_eq_getElem_cons (by simpa [size] using h)
  fun_induction untilZero image offset with
  | case1 offset h b hb =>
    have hzero : image.bytes[offset] = 0 := hb
    simp [hcons offset h, Bytes.untilZero, hzero]
  | case2 offset h b hb ih =>
    have hnonzero : image.bytes[offset] ≠ 0 := hb
    rw [hcons offset h, ih]
    simp [Bytes.untilZero, hnonzero, b]
  | case3 offset h =>
    rw [List.drop_of_length_le (by simpa [size] using h)]
    rfl

/-- A string of a file made of bytes is cut from the bytes behind its start. -/
theorem untilZero_ofList (bs : Bytes) (offset : Nat) :
    (ofList bs).untilZero offset = Bytes.untilZero (bs.drop offset) := by
  rw [untilZero_eq, toList_ofList]

end Image

end PeCoff
