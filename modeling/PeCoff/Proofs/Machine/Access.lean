import Mathlib
import PeCoff.Proofs.Machine.Step
import PeCoff.Proofs.Memory
import PeCoff.Text.Unicode

/-!
# Access to files and memory

What the decoders of a machine read through: ranges of a file, fields of a record, rows of a table,
and a memory that the sections of an image make up. Every one gives what it gives without a machine.
-/

namespace PeCoff.Machine

/-! ## Files -/

/-- The bytes of a file at an offset, when the file holds all of them. -/
def readFile (image : Image) (offset length : Nat) : Option Bytes :=
  (checkedAdd 64 offset length).bind fun stop => slice? image.toList offset stop

/-- The size of a file fits into a word. -/
def Fits (image : Image) : Prop :=
  image.size < 2 ^ 64

variable {image : Image}

/-- A range of a file whose offsets fit is read as it is. -/
lemma readFile_eq (h : Fits image) (offset length : Nat) :
    readFile image offset length = image.read offset length := by
  simp only [Fits] at h
  have hsize := image.length_toList
  rw [readFile, Image.read]
  by_cases hend : offset + length ≤ image.size
  · rw [checkedAdd_eq (by omega), Option.bind_some, slice?_eq (by omega) (by omega), if_pos hend,
      Image.clipped_eq, List.drop_take, Nat.add_sub_cancel_left]
  · rw [if_neg hend]
    by_cases hsum : offset + length < 2 ^ 64
    · rw [checkedAdd_eq hsum, Option.bind_some]
      exact if_neg fun hrange => hend (hsize ▸ hrange.2)
    · rw [checkedAdd_eq_none (Nat.not_lt.mp hsum)]
      rfl

/-- A range with a length of 32 bits is short. -/
lemma length_read_lt {offset : Nat} {size : UInt32} {bs : Bytes}
    (h : image.read offset size.toNat = some bs) : bs.length < 2 ^ 64 := by
  rw [Image.length_read h]
  exact Nat.lt_trans size.toNat_lt (by decide)

/-! ## Records -/

section Records

variable {α : Type} {l : Layout α} {bs : Bytes}

/-- The bytes of a string from a place on, one by one. -/
def bytesAt (bs : Bytes) : (count start : Nat) → Step Bytes
  | 0, _ => return []
  | count + 1, start => do
    let b ← index bs start
    let rest ← bytesAt bs count (← add 64 start 1)
    return b :: rest

/-- Bytes are accessed one by one without a fault, as long as there are so many. -/
lemma bytesAt_eq_of_lt {count start : Nat} (hword : start + count < 2 ^ 64)
    (h : start + count ≤ bs.length) : bytesAt bs count start = .ok ((bs.drop start).take count) := by
  induction count generalizing start with
  | zero => rfl
  | succ count ih =>
    have hstart : start < bs.length := by omega
    rw [bytesAt, index_eq hstart, add_eq (by omega)]
    simp only [ok_bind]
    rw [ih (by omega) (by omega), List.drop_eq_getElem_cons hstart]
    rfl

/-- When the string ends too early the access past its end is the fault. -/
lemma bytesAt_eq_error {count start : Nat} (hword : start + count < 2 ^ 64)
    (hstart : start ≤ bs.length) (h : bs.length < start + count) :
    bytesAt bs count start = .error .index := by
  induction count generalizing start with
  | zero => exact absurd hstart (Nat.not_le_of_lt h)
  | succ count ih =>
    rw [bytesAt]
    by_cases hlt : start < bs.length
    · rw [index_eq hlt, add_eq (by omega)]
      simp only [ok_bind]
      rw [ih (by omega) (by omega) (by omega)]
      rfl
    · rw [index, List.getElem?_eq_none (Nat.le_of_not_lt hlt)]
      rfl

/-- The record at a place of a string, all bytes of which are accessed. -/
def fetch (l : Layout α) (bs : Bytes) (start : Nat) : Step α := do
  let front ← bytesAt bs l.size start
  return l.read front.zeroExtended

/-- All bytes of a record are accessed without a fault where there are so many. -/
lemma fetch_eq_of_lt {start : Nat} (hword : start + l.size < 2 ^ 64)
    (h : start + l.size ≤ bs.length) :
    fetch l bs start = .ok (l.read (Bytes.zeroExtended (bs.drop start))) := by
  rw [fetch, bytesAt_eq_of_lt hword h]
  simp only [ok_bind, pure_eq, l.read_take _ (Nat.le_refl _)]

/-- A record of a short byte string is fetched without a fault where there are so many bytes. -/
lemma fetch_eq (hbs : bs.length < 2 ^ 64) {start : Nat} (h : start + l.size ≤ bs.length) :
    fetch l bs start = .ok (l.read (Bytes.zeroExtended (bs.drop start))) :=
  fetch_eq_of_lt (Nat.lt_of_le_of_lt h hbs) h

/-- The record at the front of a string is decoded, or the string is too short and an access past
its end is the fault. -/
lemma fetch_front_cases (bs : Bytes) (hl : l.size < 2 ^ 64) :
    l.decode? bs = some (l.read bs.zeroExtended) ∧ fetch l bs 0 = .ok (l.read bs.zeroExtended) ∨
      bs.length < l.size ∧ l.decode? bs = none ∧ fetch l bs 0 = .error .index := by
  have hsize : 0 + l.size < 2 ^ 64 := by omega
  rw [Layout.decode?_eq]
  by_cases h : l.size ≤ bs.length
  · exact .inl ⟨if_pos h, fetch_eq_of_lt hsize (by omega)⟩
  · have hfront : bytesAt bs l.size 0 = .error .index :=
      bytesAt_eq_error hsize (Nat.zero_le _) (by omega)
    refine .inr ⟨Nat.lt_of_not_le h, if_neg h, ?_⟩
    rw [fetch, hfront]
    rfl

/-- Behind some bytes the places start anew. -/
lemma zeroExtended_drop (bs : Bytes) (start : Nat) :
    Bytes.zeroExtended (bs.drop start) = fun i => bs.zeroExtended (start + i) := by
  funext i
  simp [Bytes.zeroExtended, List.getD_eq_getElem?_getD]

/-- The record at the front of a string, when the string is long enough. -/
def parse (l : Layout α) (bs : Bytes) : Step (Option α) := do
  if bs.length < l.size then return none
  return some (← fetch l bs 0)

/-- A record is decoded without a fault, since its length is compared first. -/
lemma parse_eq_of_size_lt (hl : l.size < 2 ^ 64) : parse l bs = .ok (l.decode? bs) := by
  rw [parse]
  obtain ⟨hdecode, hfetch⟩ | ⟨hshort, hdecode, -⟩ := fetch_front_cases bs hl
  · rw [if_neg (Nat.not_lt_of_le (l.size_le_of_decode? hdecode)), hfetch, hdecode]
    rfl
  · rw [if_pos hshort, hdecode]
    rfl

/-- A record of a short byte string is decoded without a fault. -/
lemma parse_eq (hbs : bs.length < 2 ^ 64) : parse l bs = .ok (l.decode? bs) := by
  by_cases hl : l.size < 2 ^ 64
  · exact parse_eq_of_size_lt hl
  · rw [parse, Layout.decode?_eq, if_pos (by omega), if_neg (by omega)]
    rfl

/-- The record at an offset of a file. -/
def fileRecord? (image : Image) (l : Layout α) (offset : Nat) : Step (Option α) :=
  match readFile image offset l.size with
  | none => return none
  | some bs => return some (← fetch l bs 0)

/-- A record of a file is decoded without a fault. -/
lemma fileRecord?_eq (h : Fits image) (offset : Nat) :
    fileRecord? image l offset = .ok (image.record? l offset) := by
  rw [fileRecord?, readFile_eq h, Image.record?]
  cases hbs : image.read offset l.size with
  | none => rfl
  | some bs =>
    have hlength := Image.length_read hbs
    have hle := ((image.read_eq_some_iff _ _ _).mp hbs).1
    simp only [Fits] at h
    have hfetch : fetch l bs 0 = .ok (l.read bs.zeroExtended) :=
      fetch_eq (by omega) (by omega)
    simp only [hfetch]
    rfl

/-! ## Rows -/

/-- The rows of a string; a shorter rest is dropped. -/
def rowsOf (n : Nat) (bs : Bytes) : Step (List Bytes) :=
  if n = 0 then .error .stride else .ok (bs.exactRows n)

/-- The records of the rows of a string. -/
def records (l : Layout α) (bs : Bytes) : Step (List α) := do
  let rows ← rowsOf l.size bs
  let found ← rows.mapM (parse l)
  return found.filterMap id

/-- An exact row has as many bytes as all rows. -/
lemma length_of_mem_exactRows {n : Nat} {row : Bytes} (h : row ∈ bs.exactRows n) :
    row.length = n := by
  obtain ⟨k, hk, rfl⟩ := List.getElem_of_mem h
  have hrow : (bs.exactRows n)[k] = (bs.drop (n * k)).take n :=
    Bytes.getElem_takeRows n _ bs k hk
  have hcount : k < bs.length / n := by simpa [Bytes.exactRows] using hk
  have hend : n * k + n ≤ bs.length := by
    rw [← Nat.mul_succ]
    calc n * (k + 1) ≤ n * (bs.length / n) := Nat.mul_le_mul_left n hcount
      _ ≤ bs.length := Nat.mul_div_le bs.length n
  rw [hrow, List.length_take, List.length_drop]
  omega

/-- Records in a row are decoded without a fault, unless they have no bytes. -/
lemma records_eq (hl : 0 < l.size) (hbs : l.size < 2 ^ 64) :
    records l bs = .ok (l.decodeAll bs) := by
  have hrows : ∀ row ∈ bs.exactRows l.size, parse l row = .ok (some (l.read row.zeroExtended)) := by
    intro row hrow
    have hlength := length_of_mem_exactRows hrow
    rw [parse_eq (by omega), Layout.decode?_eq, if_pos (by omega)]
  rw [records, rowsOf, if_neg (by omega)]
  simp only [ok_bind, pure_eq]
  rw [mapM_eq hrows]
  simp [Layout.decodeAll, List.filterMap_map]

/-- The record in a row of a string, by the number of the row. -/
lemma fetch_row_eq (hbs : bs.length < 2 ^ 64) {i : Nat}
    (h : i < (l.decodeAll bs).length) : fetch l bs (i * l.size) = .ok (l.decodeAll bs)[i] := by
  have hi : i < bs.length / l.size := by simpa using h
  have hend : (i + 1) * l.size ≤ bs.length :=
    calc (i + 1) * l.size ≤ bs.length / l.size * l.size := Nat.mul_le_mul_right _ hi
      _ ≤ bs.length := Nat.div_mul_le_self bs.length l.size
  rw [Nat.succ_mul] at hend
  rw [fetch_eq hbs hend]
  simp only [Layout.decodeAll, Bytes.exactRows, List.getElem_map]
  rw [Bytes.getElem_takeRows, Nat.mul_comm l.size i, l.read_take _ (Nat.le_refl _)]

/-- A record that lies in a piece of a string is one of the string. -/
lemma fetch_slice_eq {start stop i : Nat} (hword : stop < 2 ^ 64) (hstop : stop ≤ bs.length)
    (h : start + i + l.size ≤ stop) :
    fetch l ((bs.take stop).drop start) i =
      .ok (l.read (Bytes.zeroExtended (bs.drop (start + i)))) := by
  have hlength : ((bs.take stop).drop start).length = stop - start := by
    rw [List.length_drop, List.length_take, Nat.min_eq_left hstop]
  rw [fetch_eq (by omega) (by omega), List.drop_drop, List.drop_take, l.read_take _ (by omega)]

/-- The record at a place of a string, when the string holds all of it. -/
def recordIn (l : Layout α) (bs : Bytes) (start : Nat) : Step (Option α) := do
  match slice? bs start (← add 64 start l.size) with
  | none => return none
  | some row => return some (← fetch l row 0)

/-- A record behind some bytes is decoded without a fault. -/
lemma recordIn_eq (hl : 0 < l.size) {start : Nat} (h : start + l.size < 2 ^ 64) :
    recordIn l bs start = .ok (l.decode? (bs.drop start)) := by
  rw [recordIn, add_eq h, Layout.decode?_eq, List.length_drop]
  simp only [ok_bind]
  by_cases hend : start + l.size ≤ bs.length
  · have hfetch : fetch l ((bs.take (start + l.size)).drop start) 0 =
        .ok (l.read (Bytes.zeroExtended (bs.drop start))) :=
      fetch_slice_eq h hend (Nat.le_refl _)
    rw [slice?_eq (Nat.le_add_right _ _) hend, if_pos (by omega)]
    simp only [hfetch]
    rfl
  · have hnone : slice? bs start (start + l.size) = none := if_neg fun hrange => hend hrange.2
    rw [hnone, if_neg (by omega)]
    rfl

/-- A record of two parts, by a record for each part. -/
lemma decode?_pair {α β : Type} (l : Layout α) (r : Layout β) (bs : Bytes) :
    (l.pair r).decode? bs = (l.decode? bs).bind fun a =>
      (r.decode? (bs.drop l.size)).map fun b => (a, b) := by
  have hsize : (l.pair r).size = l.size + r.size := rfl
  simp only [Layout.decode?_eq, hsize, List.length_drop]
  by_cases hboth : l.size + r.size ≤ bs.length
  · rw [if_pos hboth, if_pos (by omega), if_pos (by omega), zeroExtended_drop]
    rfl
  · rw [if_neg hboth]
    by_cases hfirst : l.size ≤ bs.length
    · rw [if_pos hfirst, if_neg (by omega)]
      rfl
    · rw [if_neg hfirst]
      rfl

/-- Records laid end to end are the first one and those after it. -/
lemma decodeAll_eq (hl : 0 < l.size) (bs : Bytes) :
    l.decodeAll bs = match l.decode? bs with
      | none => []
      | some a => a :: l.decodeAll (bs.drop l.size) := by
  rw [Layout.decode?_eq]
  by_cases h : l.size ≤ bs.length
  · have hcount : bs.length / l.size = (bs.length - l.size) / l.size + 1 := by
      rw [← Nat.add_div_right _ hl, Nat.sub_add_cancel h]
    rw [if_pos h, Layout.decodeAll, Bytes.exactRows, hcount, Bytes.takeRows, List.map_cons,
      l.read_take bs (Nat.le_refl _), Layout.decodeAll, Bytes.exactRows, List.length_drop]
  · rw [if_neg h, Layout.decodeAll, Bytes.exactRows, Nat.div_eq_of_lt (Nat.lt_of_not_le h)]
    rfl

/-- The records of as many rows as are declared, of which fewer may be there. -/
lemma decodeAll_take_eq (hl : 0 < l.size) (bs : Bytes) (count : Nat) :
    l.decodeAll (bs.take ((count + 1) * l.size)) = match l.decode? bs with
      | none => []
      | some a => a :: l.decodeAll ((bs.drop l.size).take (count * l.size)) := by
  have hdrop : (bs.take ((count + 1) * l.size)).drop l.size =
      (bs.drop l.size).take (count * l.size) := by
    rw [List.drop_take, Nat.succ_mul, Nat.add_sub_cancel]
  have hdecode : l.decode? (bs.take ((count + 1) * l.size)) = l.decode? bs := by
    have hmin : min l.size ((count + 1) * l.size) = l.size := by
      rw [Nat.succ_mul]
      omega
    simp only [Layout.decode?, List.take_take, hmin]
  rw [decodeAll_eq hl, hdecode, hdrop]

/-- A piece of a string without its front, when the piece may be cut off by the end of the
string. -/
lemma drop_take_min_eq (bs : Bytes) (start length skip : Nat) :
    (bs.take (min (start + length) bs.length)).drop (start + skip) =
      ((bs.drop start).take length).drop skip := by
  rw [← List.take_eq_take_min, ← List.drop_drop, List.drop_take, Nat.add_sub_cancel_left]

/-- The units of a string, by its rows of two bytes. -/
lemma decodeAll_u16_eq (bs : Bytes) : Layout.u16.decodeAll bs = Text.Utf16.units bs := by
  fun_induction Text.Utf16.units bs with
  | case1 low high rest ih =>
    have hdecode : Layout.u16.decode? (low :: high :: rest) =
        some (UInt16.ofNat (low.toNat + 256 * high.toNat)) := by
      rw [Layout.decode?_eq, if_pos (by simp [Layout.u16, Layout.number])]
      simp [Layout.u16, Layout.number, Bytes.littleEndian, Bytes.zeroExtended, List.range_succ]
    rw [decodeAll_eq (by decide), hdecode]
    simp only
    rw [show (low :: high :: rest).drop Layout.u16.size = rest from rfl, ih]
  | case2 bs hshort =>
    have hlength : bs.length < 2 := by
      obtain _ | ⟨low, _ | ⟨high, rest⟩⟩ := bs
      · simp
      · simp
      · exact absurd rfl (hshort low high rest)
    rw [decodeAll_eq (by decide), Layout.decode?_eq, if_neg (by
      rw [show Layout.u16.size = 2 from rfl]
      omega)]

/-- The units of a string. -/
def units (bs : Bytes) : Step (List UInt16) :=
  records .u16 bs

/-- Pairs of bytes are made into units without a fault. -/
lemma units_eq (bs : Bytes) : units bs = .ok (Text.Utf16.units bs) := by
  rw [units, records_eq (by decide) (by decide), decodeAll_u16_eq]

end Records

/-! ## Strings of a file -/

/-- The bytes before the first zero byte. -/
def cut (bs : Bytes) : Step Bytes :=
  slice bs 0 (bs.findIdx (· == 0))

/-- A byte string is cut at its first zero without a fault. -/
lemma cut_eq (bs : Bytes) : cut bs = .ok bs.untilZero := by
  rw [cut, slice_eq (Nat.zero_le _) List.findIdx_le_length, List.drop_zero, Bytes.untilZero,
    List.takeWhile_eq_take_findIdx_not]
  congr 3
  funext b
  simp [bne]

/-- The string at an offset of a file. -/
def stringAt (image : Image) (offset : Nat) : Step (Option Bytes) := do
  if image.size < offset then return none
  let length := min (image.size - offset) Image.maxString
  if length = 0 then return none
  match readFile image offset length with
  | none => return none
  | some bs => return some (← cut bs)

/-- A string of a file is read without a fault. -/
lemma stringAt_eq (h : Fits image) (offset : Nat) :
    stringAt image offset = .ok (image.stringAt offset) := by
  rw [stringAt, Image.stringAt]
  -- The length is cut off at the end of the file, so the bytes are all there.
  by_cases hoffset : offset < image.size
  · have hread : image.read offset (min (image.size - offset) Image.maxString) =
        some (image.clipped offset Image.maxString) := by
      have hsize := image.length_toList
      rw [Image.read, if_pos (by omega)]
      simp only [Image.clipped_eq]
      rcases Nat.le_total (image.size - offset) Image.maxString with hle | hle
      · rw [Nat.min_eq_left hle, List.take_of_length_le (by simp),
          List.take_of_length_le (by simp; omega)]
      · rw [Nat.min_eq_right hle]
    have hlength : min (image.size - offset) Image.maxString ≠ 0 := by
      simp only [Image.maxString]
      omega
    rw [if_neg (by omega), if_pos hoffset]
    simp only [if_neg hlength, readFile_eq h, hread, cut_eq]
    rfl
  · rw [if_neg hoffset]
    by_cases hpast : image.size < offset
    · rw [if_pos hpast]
      rfl
    · rw [if_neg hpast]
      have hlength : min (image.size - offset) Image.maxString = 0 := by omega
      simp only [if_pos hlength]
      rfl

end PeCoff.Machine
