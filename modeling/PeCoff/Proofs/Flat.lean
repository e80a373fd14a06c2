import Mathlib
import PeCoff.Proofs.Strings
import PeCoff.Proofs.Utf8

/-!
# Flat memory

In a flat memory the addresses are the offsets of a file. What is read there is told by what the
file holds: the main statements are `flat_record?_eq_some_iff` and `flat_pointer?_eq_some_iff` for
records and numbers, `flat_string_eq_some` for the strings of the file, `flat_text_eq_some` for text
that was stored, and `isSome_flat_text`, by which the first byte alone decides whether there is
text.
-/

namespace PeCoff

namespace Image

variable {image : Image} {offset : Nat} {xs ys : Bytes}

/-- The file holds a byte string at an offset. -/
def Holds (image : Image) (offset : Nat) (bs : Bytes) : Prop :=
  image.read offset bs.length = some bs

instance : Decidable (image.Holds offset xs) :=
  inferInstanceAs (Decidable (_ = _))

/-- A file holds bytes at an offset when it has them from there on. -/
lemma holds_iff : image.Holds offset xs ↔ offset + xs.length ≤ image.size ∧
    xs = (image.toList.drop offset).take xs.length :=
  image.read_eq_some_iff _ _ _

/-- What a file holds ends within it. -/
lemma Holds.end_le (h : image.Holds offset xs) : offset + xs.length ≤ image.size :=
  (holds_iff.mp h).1

/-- A file holds only one byte string of a length at an offset. -/
lemma Holds.unique (hx : image.Holds offset xs) (hy : image.Holds offset ys)
    (hlength : xs.length = ys.length) : xs = ys := by
  rw [Holds, hlength, hy] at hx
  exact (Option.some.inj hx).symm

/-- A file holds each piece of what it holds. -/
lemma Holds.piece (h : image.Holds offset xs) (skip n : Nat) (hle : skip + n ≤ xs.length) :
    image.Holds (offset + skip) ((xs.drop skip).take n) := by
  have hlength : ((xs.drop skip).take n).length = n := by
    rw [List.length_take, List.length_drop]
    omega
  rw [Holds, hlength]
  exact read_piece h hle

/-- Two byte strings, one after the other, are held when each of them is. -/
lemma holds_append_iff : image.Holds offset (xs ++ ys) ↔
    image.Holds offset xs ∧ image.Holds (offset + xs.length) ys := by
  constructor
  · intro h
    have hx := h.piece 0 xs.length (by simp)
    have hy := h.piece xs.length ys.length (by simp)
    rw [List.drop_zero, List.take_left] at hx
    rw [List.drop_left, List.take_length] at hy
    exact ⟨hx, hy⟩
  · rintro ⟨hx, hy⟩
    obtain ⟨_, hx⟩ := holds_iff.mp hx
    obtain ⟨hle, hy⟩ := holds_iff.mp hy
    refine holds_iff.mpr ⟨by rw [List.length_append]; omega, ?_⟩
    rw [List.length_append, List.take_add, List.drop_drop, ← hx, ← hy]

/-- A file holds what it was made of. -/
lemma holds_ofList (front bs back : Bytes) :
    (ofList (front ++ bs ++ back)).Holds front.length bs := by
  rw [holds_iff, size_ofList, toList_ofList, List.append_assoc, List.drop_left, List.take_left]
  simp

/-- A string of the file is the bytes at an offset inside it, up to the first zero byte, the end of
the file or the greatest length of a string, whichever comes first. -/
structure IsStringAt (image : Image) (offset : Nat) (s : Bytes) : Prop where
  start_lt : offset < image.size
  holds : image.Holds offset s
  zero_notMem : 0 ∉ s
  length_le : s.length ≤ maxString
  ends : s.length = maxString ∨ offset + s.length = image.size ∨
    image.Holds (offset + s.length) [0]

/-- Zero-terminated bytes are a string of the file. -/
lemma isStringAt_of_terminated (h : image.Holds offset (xs ++ [0])) (hzero : 0 ∉ xs)
    (hlength : xs.length ≤ maxString) : image.IsStringAt offset xs where
  start_lt := by
    have hend := h.end_le
    rw [List.length_append, List.length_singleton] at hend
    omega
  holds := (holds_append_iff.mp h).1
  zero_notMem := hzero
  length_le := hlength
  ends := .inr (.inr (holds_append_iff.mp h).2)

end Image

namespace Layout

/-- Different records are written differently. -/
lemma write_injective {α : Type} (l : Layout α) : Function.Injective l.write := by
  intro a b h
  rw [← l.read_write a, h, l.read_write]

end Layout

namespace Memory

variable {image : Image} {zeroReadable wide : Bool} {address n : Nat} {bs : Bytes}

/-- A flat memory can be read at an address: at each but maybe the first. -/
def Addressable (zeroReadable : Bool) (address : Nat) : Prop :=
  address ≠ 0 ∨ zeroReadable

/-- Behind an address there are addresses. -/
lemma Addressable.add (h : Addressable zeroReadable address) (skip : Nat) :
    Addressable zeroReadable (address + skip) :=
  h.imp_left fun hne => by omega

/-- Flat memory gives the bytes of the file at the same place. -/
lemma flat_eq_some_iff : flat image zeroReadable address n = some bs ↔
    Addressable zeroReadable address ∧ image.read address n = some bs := by
  rw [flat, Addressable]
  cases zeroReadable with
  | true => simp
  | false => simp [ite_eq_iff]

/-- Flat memory can be read as far as the file goes. -/
lemma isSome_flat : (flat image zeroReadable address n).isSome ↔
    Addressable zeroReadable address ∧ address + n ≤ image.size := by
  simp only [Option.isSome_iff_exists, flat_eq_some_iff, Image.read_eq_some_iff]
  constructor
  · rintro ⟨_, hplace, hle, _⟩
    exact ⟨hplace, hle⟩
  · rintro ⟨hplace, hle⟩
    exact ⟨_, hplace, hle, rfl⟩

/-- A byte string that the file holds is read from flat memory. -/
lemma flat_of_holds (hplace : Addressable zeroReadable address) (h : image.Holds address bs) :
    flat image zeroReadable address bs.length = some bs :=
  flat_eq_some_iff.mpr ⟨hplace, h⟩

/-! ## Records and numbers -/

/-- A record is read where the file holds its bytes. -/
lemma flat_record?_eq_some_iff {α : Type} {l : Layout α} {a : α} :
    (flat image zeroReadable).record? l address = some a ↔
      Addressable zeroReadable address ∧ image.Holds address (l.write a) := by
  rw [record?_eq_some_iff (flat_exact image zeroReadable), flat_eq_some_iff, Image.Holds,
    Layout.length_write]

/-- A record is read where the file has room for it. -/
lemma isSome_flat_record? {α : Type} {l : Layout α} :
    ((flat image zeroReadable).record? l address).isSome ↔
      Addressable zeroReadable address ∧ address + l.size ≤ image.size := by
  rw [← isSome_flat, record?, Option.isSome_bind]
  cases h : flat image zeroReadable address l.size with
  | none => rfl
  | some bs =>
    have hlength := Image.length_read (flat_eq_some_iff.mp h).2
    simp [l.decode?_eq, hlength]

/-- A number of a pointer's width is read where the file holds its bytes. -/
lemma flat_pointer?_eq_some_iff {v : UInt64} :
    (flat image zeroReadable).pointer? wide address = some v ↔ FitsPointer wide v ∧
      Addressable zeroReadable address ∧ image.Holds address (pointerBytes wide v) := by
  rw [pointer?_eq_some_iff (flat_exact image zeroReadable), flat_eq_some_iff, Image.Holds,
    length_pointerBytes]

/-- A number is read where the file has room for it. -/
lemma isSome_flat_pointer? : ((flat image zeroReadable).pointer? wide address).isSome ↔
    Addressable zeroReadable address ∧ address + pointerWidth wide ≤ image.size := by
  cases wide with
  | true => exact isSome_flat_record?
  | false =>
    rw [pointer?, if_neg Bool.false_ne_true, Option.isSome_map]
    exact isSome_flat_record?

/-! ## Text -/

/-- A string of the file is a longest run in flat memory. -/
lemma longestRun_flat (hplace : Addressable zeroReadable address)
    (h : image.IsStringAt address bs) (hend : address + bs.length ≤ addressLimit) :
    (flat image zeroReadable).LongestRun Image.maxString address bs where
  length_le := h.length_le
  byte i hi := by
    have hbyte := h.holds.piece i 1 hi
    rw [List.take_one_drop_eq_of_lt_length hi] at hbyte
    refine ⟨by omega, flat_of_holds (hplace.add i) hbyte, ?_⟩
    exact fun hb => h.zero_notMem (hb ▸ List.getElem_mem hi)
  maximal hlt _ b hb := by
    rcases h.ends with hfull | hsize | hzero
    · exact absurd hfull hlt.ne
    · obtain ⟨-, hle⟩ := isSome_flat.mp (Option.isSome_of_eq_some hb)
      omega
    · have hlast := flat_of_holds (hplace.add bs.length) hzero
      rw [List.length_singleton, hb] at hlast
      exact List.head_eq_of_cons_eq (Option.some.inj hlast)

/-- A string of the file is read from flat memory. -/
lemma flat_string_eq_some (hplace : Addressable zeroReadable address)
    (h : image.IsStringAt address bs) (hend : address + bs.length ≤ addressLimit) :
    (flat image zeroReadable).string address = some bs := by
  rw [string_eq_of_longestRun (flat_exact _ _) (longestRun_flat hplace h hend)]
  split
  next hnil =>
    have hfirst : (flat image zeroReadable address 1).isSome := isSome_flat.mpr ⟨hplace, h.start_lt⟩
    obtain ⟨b, hb⟩ := Option.isSome_iff_exists.mp hfirst
    rw [hb, hnil, Option.map_some]
  next => exact flat_of_holds hplace h.holds

/-- Text that was stored with a zero behind it is read from flat memory. -/
lemma flat_text_eq_some {s : String} (hplace : Addressable zeroReadable address)
    (h : image.Holds address (Text.toUtf8 s ++ [0])) (hzero : 0 ∉ Text.toUtf8 s)
    (hlength : (Text.toUtf8 s).length ≤ Image.maxString)
    (hend : address + (Text.toUtf8 s).length ≤ addressLimit) :
    (flat image zeroReadable).text address = some s := by
  have hstring := Image.isStringAt_of_terminated h hzero hlength
  rw [text, flat_string_eq_some hplace hstring hend, Option.map_some, Text.ofUtf8_toUtf8]

/-- There is a string in flat memory wherever the first byte can be read. -/
lemma isSome_flat_string : ((flat image zeroReadable).string address).isSome ↔
    Addressable zeroReadable address ∧ address + 1 ≤ image.size := by
  obtain ⟨s, hs, -⟩ := exists_longestRun (flat_exact image zeroReadable) Image.maxString address
  rw [string_eq_of_longestRun (flat_exact _ _) hs, ← isSome_flat]
  split
  · rw [Option.isSome_map]
  next hnil =>
    have hpos := List.length_pos_iff.mpr hnil
    rw [isSome_flat, isSome_flat]
    constructor
    · rintro ⟨hplace, hle⟩
      exact ⟨hplace, by omega⟩
    -- The last byte of the run can be read, so that its whole range can be.
    · rintro ⟨hplace, -⟩
      have hlast := (hs.byte (s.length - 1) (by omega)).2.1
      obtain ⟨-, hle⟩ := isSome_flat.mp (Option.isSome_of_eq_some hlast)
      exact ⟨hplace, by omega⟩

/-- A text can be read wherever there is a byte. -/
lemma isSome_flat_text : ((flat image zeroReadable).text address).isSome ↔
    Addressable zeroReadable address ∧ address + 1 ≤ image.size := by
  rw [text, Option.isSome_map, isSome_flat_string]

/-- How many bytes at an address are looked at for a string there. -/
def stringExtent (memory : Memory) (address : Nat) : Nat :=
  min (memory.stringLength Image.maxString address + 1) Image.maxString

/-- A longest run is one in every memory that reads the same as far as the run is followed. -/
lemma LongestRun.congr {memory memory' : Memory} {limit : Nat}
    (hs : memory.LongestRun limit address bs)
    (h : ∀ i < min (bs.length + 1) limit, memory' (address + i) 1 = memory (address + i) 1) :
    memory'.LongestRun limit address bs where
  length_le := hs.length_le
  byte i hi := by
    have hle := hs.length_le
    rw [h i (by omega)]
    exact hs.byte i hi
  maximal hlt := by
    rw [h bs.length (by omega)]
    exact hs.maximal hlt

/-- Two files of one size hold the same text at an address, if they hold the same bytes as far as
the string is followed in one of them. -/
lemma flat_text_congr {image' : Image} (hsize : image'.size = image.size)
    (h : ((flat image zeroReadable).text address).isSome → ∀ skip n,
      skip + n ≤ (flat image zeroReadable).stringExtent address →
        image'.read (address + skip) n = image.read (address + skip) n) :
    (flat image' zeroReadable).text address = (flat image zeroReadable).text address := by
  cases htext : (flat image zeroReadable).text address with
  | none =>
    rw [← Option.not_isSome_iff_eq_none, isSome_flat_text, hsize, ← isSome_flat_text, htext]
    exact Bool.false_ne_true
  | some found =>
    have h := h (by rw [htext]; rfl)
    obtain ⟨s, hs, -⟩ := exists_longestRun (flat_exact image zeroReadable) Image.maxString address
    rw [stringExtent, hs.stringLength_eq (flat_exact _ _)] at h
    -- The string and the zero behind it are all that is read.
    have hread (skip n : Nat) (hle : skip + n ≤ min (s.length + 1) Image.maxString) :
        flat image' zeroReadable (address + skip) n =
          flat image zeroReadable (address + skip) n := by
      rw [flat, flat, h skip n hle]
    have hs' := hs.congr fun i hi => hread i 1 hi
    have hlimit : 0 < Image.maxString := by decide
    have hle := hs.length_le
    rw [← htext, text, text, string_eq_of_longestRun (flat_exact _ _) hs,
      string_eq_of_longestRun (flat_exact _ _) hs']
    have hone : flat image' zeroReadable address 1 = flat image zeroReadable address 1 :=
      hread 0 1 (by omega)
    have hall : flat image' zeroReadable address s.length =
        flat image zeroReadable address s.length := hread 0 s.length (by omega)
    rw [hone, hall]

end Memory

end PeCoff
