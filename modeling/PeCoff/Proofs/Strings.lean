import Mathlib
import PeCoff.Proofs.Build
import PeCoff.Proofs.Memory

/-!
# Strings in the memory of an image

The length of a string is found byte by byte, and its bytes are then read as one range. The main
statements are `string_eq_of_longestRun`, by which only that range decides what is returned, and
`string_eq_some_iff`, which compares the string of an image with the longest run of bytes at its
address. The two agree when one section holds each byte of the run; a run that no section holds as a
whole is lost, and where sections overlap the range can hold other bytes than the single reads.
-/

namespace PeCoff

namespace Memory

variable {memory : Memory} {limit address : Nat} {s t : Bytes}

/-- The string is the longest run of readable bytes other than zero at an address, up to a
limit. -/
structure LongestRun (memory : Memory) (limit address : Nat) (s : Bytes) : Prop where
  length_le : s.length ≤ limit
  byte : ∀ i (h : i < s.length), address + i < addressLimit ∧
    memory (address + i) 1 = some [s[i]] ∧ s[i] ≠ 0
  maximal : s.length < limit → address + s.length < addressLimit →
    ∀ b, memory (address + s.length) 1 = some [b] → b = 0

/-- A longest run is at least as long as any other. -/
lemma LongestRun.length_le_length (hs : memory.LongestRun limit address s)
    (ht : memory.LongestRun limit address t) : t.length ≤ s.length := by
  by_contra hlt
  have hlt : s.length < t.length := Nat.lt_of_not_le hlt
  obtain ⟨haddress, hbyte, hne⟩ := ht.byte s.length hlt
  exact hne (hs.maximal (Nat.lt_of_lt_of_le hlt ht.length_le) haddress _ hbyte)

/-- There is only one longest run. -/
lemma LongestRun.unique (hs : memory.LongestRun limit address s)
    (ht : memory.LongestRun limit address t) : s = t := by
  have hlength := Nat.le_antisymm (ht.length_le_length hs) (hs.length_le_length ht)
  apply List.ext_getElem hlength
  intro i hi hi'
  have hbytes := (hs.byte i hi).2.1.symm.trans (ht.byte i hi').2.1
  simpa using hbytes

/-- The empty run is the longest when no byte other than zero can be read. -/
lemma LongestRun.nil (h : 0 < limit → address < addressLimit →
    ∀ b, memory address 1 = some [b] → b = 0) : memory.LongestRun limit address [] where
  length_le := Nat.zero_le _
  byte := fun i hi => absurd hi (Nat.not_lt_zero i)
  maximal := by simpa using h

/-- A readable byte other than zero extends the run after it. -/
lemma LongestRun.cons {b : UInt8} (haddress : address < addressLimit)
    (hbyte : memory address 1 = some [b]) (hne : b ≠ 0)
    (h : memory.LongestRun limit (address + 1) s) :
    memory.LongestRun (limit + 1) address (b :: s) where
  length_le := Nat.succ_le_succ h.length_le
  byte := by
    intro i hi
    cases i with
    | zero => exact ⟨haddress, hbyte, hne⟩
    | succ i =>
      have hnext := h.byte i (Nat.lt_of_succ_lt_succ hi)
      rw [show address + 1 + i = address + (i + 1) by omega] at hnext
      exact hnext
  maximal := by
    have hmaximal := h.maximal
    rw [show address + 1 + s.length = address + (s.length + 1) by omega] at hmaximal
    exact fun hlt => hmaximal (Nat.lt_of_succ_lt_succ hlt)

/-- The length of a string is that of the longest run. -/
lemma exists_longestRun (hm : memory.Exact) (limit address : Nat) :
    ∃ s, memory.LongestRun limit address s ∧ s.length = memory.stringLength limit address := by
  induction limit generalizing address with
  | zero => exact ⟨[], .nil (by simp), rfl⟩
  | succ limit ih =>
    rw [stringLength]
    by_cases haddress : addressLimit ≤ address
    · exact ⟨[], .nil fun _ hlt => absurd hlt (Nat.not_lt.mpr haddress), by simp [haddress]⟩
    rw [if_neg haddress]
    cases hbyte : memory address 1 with
    | none => exact ⟨[], .nil (by simp [hbyte]), rfl⟩
    | some bs =>
      obtain ⟨b, rfl⟩ := List.length_eq_one_iff.mp (hm _ _ _ hbyte)
      by_cases hzero : b = 0
      · exact ⟨[], .nil (by simp [hbyte, hzero]), by simp [hzero]⟩
      · obtain ⟨s, hs, hlength⟩ := ih (address + 1)
        exact ⟨b :: s, hs.cons (Nat.lt_of_not_le haddress) hbyte hzero, by simp [hzero, hlength]⟩

/-- The length of the longest run is found byte by byte. -/
lemma LongestRun.stringLength_eq (hm : memory.Exact) (hs : memory.LongestRun limit address s) :
    memory.stringLength limit address = s.length := by
  obtain ⟨t, ht, hlength⟩ := exists_longestRun hm limit address
  rw [← hlength, hs.unique ht]

/-- Only the range of the longest run decides what is returned as the string. -/
lemma string_eq_of_longestRun (hm : memory.Exact)
    (hs : memory.LongestRun Image.maxString address s) :
    memory.string address =
      if s = [] then (memory address 1).map fun _ => [] else memory address s.length := by
  rw [string, hs.stringLength_eq hm]
  cases s with
  | nil => rfl
  | cons b s => rfl

end Memory

namespace Executable

variable (e : Executable)

/-- The section that holds a range of addresses: of those that do, the one listed last. -/
def sectionAt (address length : Nat) : Option SectionHeader :=
  e.sections.reverse.find? fun x => x.maps address length

variable {e} {address length : Nat} {x : SectionHeader}

/-- A range is placed by the section that holds it. -/
lemma fileOffset_eq (haddress : address ≠ 0) : e.fileOffset address length =
    (e.sectionAt address length).map fun x =>
      x.pointerToRawData.toNat + (address - x.virtualAddress.toNat) := by
  rw [fileOffset, SectionHeader.resolve, if_neg haddress]
  rfl

/-- The section found for a range holds it. -/
lemma maps_of_sectionAt (h : e.sectionAt address length = some x) : x.maps address length :=
  List.find?_some (p := fun x : SectionHeader => x.maps address length) h

/-- A section that holds the first and the last byte of a range holds the range. -/
lemma maps_of_ends (hfirst : x.maps address 1) (hlast : x.maps (address + length) 1) :
    x.maps address (length + 1) := by
  simp only [SectionHeader.maps, Bool.and_eq_true, decide_eq_true_eq] at *
  omega

/-- A section that holds a range holds its first byte. -/
lemma maps_first (h : x.maps address (length + 1)) : x.maps address 1 := by
  simp only [SectionHeader.maps, Bool.and_eq_true, decide_eq_true_eq] at *
  omega

/-- Of two questions the first match of the weaker one is that of the stronger one, if it has the
right answer to both. -/
lemma find?_eq_some_of_imp {α : Type} {p q : α → Bool} {xs : List α} {a : α}
    (hpq : ∀ a, p a → q a) (hq : xs.find? q = some a) (hp : p a) : xs.find? p = some a := by
  obtain ⟨_, front, back, rfl, hfront⟩ := List.find?_eq_some_iff_append.mp hq
  refine List.find?_eq_some_iff_append.mpr ⟨hp, front, back, rfl, fun b hb => ?_⟩
  have hnot := hfront b hb
  by_contra hpb
  simp only [Bool.not_eq_true', Bool.not_eq_false] at hnot hpb
  simp [hpq b hpb] at hnot

/-- When one section holds each byte of a range, it is the section that holds the range. -/
lemma sectionAt_of_forall (h : ∀ i < length + 1, e.sectionAt (address + i) 1 = some x) :
    e.sectionAt address (length + 1) = some x := by
  have hfirst : e.sectionAt address 1 = some x := h 0 (Nat.succ_pos _)
  have hlast := h length (Nat.lt_succ_self _)
  apply find?_eq_some_of_imp (fun _ => maps_first) hfirst
  exact maps_of_ends (maps_of_sectionAt hfirst) (maps_of_sectionAt hlast)

/-- The bytes of a range, read one by one in one section, are its bytes in the file. -/
lemma memory_eq_of_sectionAt {s : Bytes} (haddress : address ≠ 0) (hne : s ≠ [])
    (hx : ∀ i < s.length, e.sectionAt (address + i) 1 = some x)
    (hbyte : ∀ i (h : i < s.length), e.memory (address + i) 1 = some [s[i]]) :
    e.memory address s.length = some s := by
  obtain ⟨length, hlength⟩ := Nat.exists_eq_succ_of_ne_zero (mt List.length_eq_zero_iff.mp hne)
  have hrange : e.sectionAt address s.length = some x := by
    rw [hlength] at hx ⊢
    exact sectionAt_of_forall hx
  have hstart : x.virtualAddress.toNat ≤ address := by
    have hmaps := maps_of_sectionAt hrange
    simp only [SectionHeader.maps, Bool.and_eq_true, decide_eq_true_eq] at hmaps
    exact hmaps.1
  set offset := x.pointerToRawData.toNat + (address - x.virtualAddress.toNat) with hoffset
  have hread (i : Nat) (hi : i < s.length) :
      offset + i + 1 ≤ e.image.size ∧ [s[i]] = (e.image.toList.drop (offset + i)).take 1 := by
    have hbyte := hbyte i hi
    rw [memory, fileOffset_eq (by omega), hx i hi, Option.map_some, Option.bind_some,
      show x.pointerToRawData.toNat + (address + i - x.virtualAddress.toNat) = offset + i by omega]
      at hbyte
    exact (e.image.read_eq_some_iff _ _ _).mp hbyte
  rw [memory, fileOffset_eq haddress, hrange, Option.map_some, Option.bind_some, ← hoffset,
    Image.read_eq_some_iff]
  have hend := (hread length (by omega)).1
  have hsize := e.image.length_toList
  -- The last byte of the range is inside the file, and each byte is the one read alone.
  refine ⟨by omega, List.ext_getElem (by simp; omega) fun i hi hi' => ?_⟩
  have hget := (hread i hi).2
  rw [List.take_one_drop_eq_of_lt_length (by omega)] at hget
  simpa using hget

variable (e)

/-- What is returned as the string at a readable address is the longest run of bytes there exactly
when the run is empty or the file holds it where its range is placed. A run that no section holds
as a whole is lost, and one of which one section holds each byte is returned. -/
theorem string_eq_some_iff (r : UInt32) (hr : (e.memory r.toNat 1).isSome) :
    ∃ s, e.memory.LongestRun Image.maxString r.toNat s ∧
      (e.memory.string r.toNat = some s ↔ s = [] ∨ ∃ offset,
        e.fileOffset r.toNat s.length = some offset ∧
          (e.image.toList.drop offset).take s.length = s) ∧
      (s ≠ [] → (∀ x ∈ e.sections, ¬ x.maps r.toNat s.length) →
        e.memory.string r.toNat = none) ∧
      ((∃ x, ∀ i < s.length, e.sectionAt (r.toNat + i) 1 = some x) →
        e.memory.string r.toNat = some s) := by
  obtain ⟨s, hs, _⟩ := Memory.exists_longestRun e.memory_exact Image.maxString r.toNat
  obtain ⟨first, hfirst⟩ := Option.isSome_iff_exists.mp hr
  have haddress : r.toNat ≠ 0 := by
    intro hzero
    simp [memory, fileOffset, SectionHeader.resolve, hzero] at hfirst
  have hstring := Memory.string_eq_of_longestRun e.memory_exact hs
  refine ⟨s, hs, ?_⟩
  -- The empty string takes no lookup; any other is fetched by a single one over its whole length.
  by_cases hnil : s = []
  · rw [if_pos hnil, hfirst, Option.map_some] at hstring
    simp [hstring, hnil]
  · rw [if_neg hnil] at hstring
    have hpos := List.length_pos_iff.mpr hnil
    have hsize := e.image.length_toList
    rw [hstring]
    refine ⟨?_, ?_, ?_⟩
    · simp only [hnil, false_or, memory, Option.bind_eq_some_iff, Image.read_eq_some_iff]
      constructor
      · rintro ⟨offset, hoffset, _, hbytes⟩
        exact ⟨offset, hoffset, hbytes.symm⟩
      · rintro ⟨offset, hoffset, hbytes⟩
        have hlength := congrArg List.length hbytes
        simp only [List.length_take, List.length_drop] at hlength
        exact ⟨offset, hoffset, by omega, hbytes.symm⟩
    · intro _ hmaps
      have hnone : e.sectionAt r.toNat s.length = none := by
        simpa [sectionAt] using hmaps
      rw [memory, fileOffset_eq haddress, hnone]
      rfl
    · rintro ⟨x, hx⟩
      exact memory_eq_of_sectionAt haddress hnil hx fun i hi => (hs.byte i hi).2.1

/-- An image whose library has a name that starts in one section and ends in the next. -/
def crossingImage : Image :=
  let directory := { Build.exportDirectory 0x1000 [] [] with libraryName := 0x1028 }
  Build.image ⟨0x1000, 40⟩
    [(0x1000, Export.Directory.layout.write directory ++ [65, 66]), (0x102A, [67, 68, 0])]

/-- What is in an image with a name across two sections. -/
lemma exists_crossing : ∃ e, parse crossingImage = .ok e ∧ (e.memory 0x1028 1).isSome ∧
    e.memory.stringLength Image.maxString 0x1028 = 4 ∧
    ∀ x ∈ e.sections, ¬ x.maps 0x1028 4 :=
  Build.exists_of_any (by decide +kernel)

/-- A name of four bytes across two sections is not returned. -/
theorem string_eq_some_iff_crossing : ∃ e s, parse crossingImage = .ok e ∧
    (e.memory (0x1028 : UInt32).toNat 1).isSome ∧ s.length = 4 ∧
    e.memory.LongestRun Image.maxString (0x1028 : UInt32).toNat s ∧
    e.memory.string (0x1028 : UInt32).toNat = none := by
  obtain ⟨e, he, hr, hlength, hmaps⟩ := exists_crossing
  obtain ⟨s, hs, _, hlost, _⟩ := string_eq_some_iff e 0x1028 hr
  have hfour : s.length = 4 := (hs.stringLength_eq e.memory_exact).symm.trans hlength
  refine ⟨e, s, he, hr, hfour, hs, hlost (by simp [← List.length_pos_iff, hfour]) ?_⟩
  rw [hfour]
  exact hmaps

/-- A string can be lost: it is not the longest run although its first byte can be read. -/
theorem exists_string_ne_longestRun : ∃ image e s, parse image = .ok e ∧ ∃ r : UInt32,
    (e.memory r.toNat 1).isSome ∧ e.memory.LongestRun Image.maxString r.toNat s ∧
    e.memory.string r.toNat ≠ some s := by
  obtain ⟨e, he, hr, hlength, hmaps⟩ := exists_crossing
  obtain ⟨s, hs, hs_length⟩ := Memory.exists_longestRun e.memory_exact Image.maxString 0x1028
  rw [hlength] at hs_length
  refine ⟨crossingImage, e, s, he, 0x1028, hr, hs, ?_⟩
  have hnil : s ≠ [] := by simp [← List.length_pos_iff, hs_length]
  have hnone : e.sectionAt 0x1028 4 = none := by simpa [sectionAt] using hmaps
  change e.memory.string 0x1028 ≠ some s
  rw [Memory.string_eq_of_longestRun e.memory_exact hs, if_neg hnil, hs_length, memory,
    fileOffset_eq (by decide), hnone]
  simp

end Executable

end PeCoff
