import Mathlib
import PeCoff.Proofs.Build
import PeCoff.Proofs.Machine.Memory

/-!
# Resolution of addresses

A range of addresses is placed in the file by one section, the last one listed that holds all of it.
Which section that is depends on the length of the range, so that a piece of a range can be placed
by another section than the range. The main statement is `pieces_of_fileOffset`: every piece of a
range that is placed is placed too, and when no section listed later has an address of the range,
the piece lies where the range has it, so that a range reads the same at once and in pieces.
-/

namespace PeCoff

namespace Memory

/-- The bytes of ranges that follow each other from an address on. -/
def pieces (memory : Memory) : (address : Nat) → (lengths : List Nat) → Option Bytes
  | _, [] => some []
  | address, n :: lengths => do
    let front ← memory address n
    let rest ← pieces memory (address + n) lengths
    return front ++ rest

/-- When each piece of a range reads as the piece of a string, ranges that make up the range read as
the string. -/
lemma pieces_eq {memory : Memory} {address : Nat} {lengths : List Nat} {bs : Bytes}
    (hread : ∀ skip n, 0 < n → skip + n ≤ bs.length →
      memory (address + skip) n = some ((bs.drop skip).take n))
    (hpos : ∀ n ∈ lengths, 0 < n) (hsum : lengths.sum = bs.length) :
    memory.pieces address lengths = some bs := by
  induction lengths generalizing address bs with
  | nil =>
    have hnil : bs = [] := List.length_eq_zero_iff.mp hsum.symm
    rw [pieces, hnil]
  | cons n lengths ih =>
    rw [List.sum_cons] at hsum
    have hfront : memory address n = some (bs.take n) :=
      hread 0 n (hpos n List.mem_cons_self) (by omega)
    have hrest : memory.pieces (address + n) lengths = some (bs.drop n) := by
      apply ih
      · intro skip k hk hle
        rw [List.length_drop] at hle
        rw [Nat.add_assoc, hread (n + skip) k hk (by omega), List.drop_drop]
      · exact fun k hk => hpos k (List.mem_cons_of_mem n hk)
      · rw [List.length_drop]
        omega
    rw [pieces, hfront, Option.bind_eq_bind, Option.bind_some, hrest]
    exact congrArg some (List.take_append_drop n bs)

end Memory

namespace SectionHeader

variable {sections later : List SectionHeader} {s : SectionHeader}
  {address length offset skip n : Nat}

/-- A section holds a range that lies between its address and the end of its raw data. -/
lemma maps_iff : s.maps address length ↔ s.virtualAddress.toNat ≤ address ∧
    address + length ≤ s.virtualAddress.toNat + s.sizeOfRawData.toNat := by
  simp only [maps, Bool.and_eq_true, decide_eq_true_eq]

/-- The section has an address of a range. -/
def Meets (s : SectionHeader) (address length : Nat) : Prop :=
  ∃ a, address ≤ a ∧ a < address + length ∧ s.maps a 1

/-- A section that holds a range holds each piece of it. -/
lemma maps_piece (h : s.maps address length) (hle : skip + n ≤ length) :
    s.maps (address + skip) n := by
  obtain ⟨hstart, hstop⟩ := maps_iff.mp h
  exact maps_iff.mpr ⟨by omega, by omega⟩

/-- A section that holds a piece of a range has an address of the range. -/
lemma meets_of_maps_piece (h : s.maps (address + skip) n) (hn : 0 < n)
    (hle : skip + n ≤ length) : s.Meets address length := by
  refine ⟨address + skip, Nat.le_add_right _ _, by omega, ?_⟩
  change s.maps (address + skip + 0) 1
  exact maps_piece h (by omega)

/-- A section places a range of addresses: it is the last one listed that holds the range. -/
structure Places (sections : List SectionHeader) (s : SectionHeader) (later : List SectionHeader)
    (address length : Nat) : Prop where
  address_ne_zero : address ≠ 0
  listed : ∃ earlier, sections = earlier ++ s :: later
  maps : s.maps address length
  last : ∀ x ∈ later, ¬ x.maps address length

/-- The file offset of an address, by a section that has the address. -/
def offsetOf (s : SectionHeader) (address : Nat) : Nat :=
  s.pointerToRawData.toNat + (address - s.virtualAddress.toNat)

/-- Within a section offsets go up with addresses. -/
lemma offsetOf_add (h : s.maps address length) (skip : Nat) :
    s.offsetOf (address + skip) = s.offsetOf address + skip := by
  obtain ⟨hstart, -⟩ := maps_iff.mp h
  simp only [offsetOf]
  omega

/-- A range is resolved to the offset at which a section places it. -/
lemma resolve_eq_some_iff : resolve sections address length = some offset ↔
    ∃ s later, Places sections s later address length ∧ offset = s.offsetOf address := by
  rw [resolve]
  constructor
  · intro h
    obtain ⟨haddress, h⟩ := Option.ite_none_left_eq_some.mp h
    obtain ⟨s, hfind, rfl⟩ := Option.map_eq_some_iff.mp h
    obtain ⟨hmaps, front, back, hsections, hfront⟩ := List.find?_eq_some_iff_append.mp hfind
    refine ⟨s, front.reverse, ⟨haddress, ⟨back.reverse, ?_⟩, hmaps, ?_⟩, rfl⟩
    · rw [← List.reverse_reverse sections, hsections]
      simp
    · intro x hx
      simpa using hfront x (List.mem_reverse.mp hx)
  · rintro ⟨s, later, ⟨haddress, ⟨earlier, rfl⟩, hmaps, hlast⟩, rfl⟩
    have hfind : (earlier ++ s :: later).reverse.find? (fun x => x.maps address length) =
        some s := by
      refine List.find?_eq_some_iff_append.mpr ⟨hmaps, later.reverse, earlier.reverse, by simp, ?_⟩
      intro x hx
      simpa using hlast x (List.mem_reverse.mp hx)
    rw [if_neg haddress, hfind]
    rfl

/-- A range that some section holds is resolved. -/
lemma isSome_resolve (haddress : address ≠ 0) (hs : s ∈ sections) (hmaps : s.maps address length) :
    (resolve sections address length).isSome := by
  rw [resolve, if_neg haddress, Option.isSome_map, List.find?_isSome]
  exact ⟨s, List.mem_reverse.mpr hs, hmaps⟩

/-- Each piece of a range that is placed by a section is resolved. -/
lemma Places.isSome_piece (h : Places sections s later address length) (hle : skip + n ≤ length) :
    (resolve sections (address + skip) n).isSome := by
  obtain ⟨haddress, ⟨earlier, rfl⟩, hmaps, -⟩ := h
  exact isSome_resolve (by omega) (by simp) (maps_piece hmaps hle)

/-- A section that places a range places its pieces as well, unless a section listed later has an
address of the range. -/
lemma Places.piece (h : Places sections s later address length)
    (hlater : ∀ x ∈ later, ¬ x.Meets address length) (hn : 0 < n) (hle : skip + n ≤ length) :
    Places sections s later (address + skip) n where
  address_ne_zero := by
    have haddress := h.address_ne_zero
    omega
  listed := h.listed
  maps := maps_piece h.maps hle
  last x hx hmaps := hlater x hx (meets_of_maps_piece hmaps hn hle)

/-- A piece lies where the range has it. -/
lemma Places.resolve_piece (h : Places sections s later address length)
    (hlater : ∀ x ∈ later, ¬ x.Meets address length) (hn : 0 < n) (hle : skip + n ≤ length) :
    resolve sections (address + skip) n = some (s.offsetOf address + skip) :=
  resolve_eq_some_iff.mpr ⟨s, later, h.piece hlater hn hle, (offsetOf_add h.maps skip).symm⟩

/-- The ends of a range and of its section, and the end of its place in the file, all fit. -/
lemma Places.ends_lt (h : Places sections s later address length) :
    s.virtualAddress.toNat + s.sizeOfRawData.toNat < 2 ^ 64 ∧ address + length < 2 ^ 64 ∧
      s.offsetOf address + length < 2 ^ 64 := by
  obtain ⟨hstart, hstop⟩ := maps_iff.mp h.maps
  have haddress := s.virtualAddress.toNat_lt
  have hsize := s.sizeOfRawData.toNat_lt
  have hpointer := s.pointerToRawData.toNat_lt
  simp only [offsetOf]
  omega

end SectionHeader

namespace Executable

/-- A piece of a range of addresses reads as the piece of what the range reads as. -/
lemma memory_piece {e : Executable} {address length offset skip n : Nat} {bs : Bytes}
    (hbs : e.memory address length = some bs) (hrange : e.fileOffset address length = some offset)
    (hpiece : e.fileOffset (address + skip) n = some (offset + skip)) (hle : skip + n ≤ length) :
    e.memory (address + skip) n = some ((bs.drop skip).take n) := by
  rw [memory, hrange, Option.bind_some] at hbs
  rw [memory, hpiece, Option.bind_some]
  exact Image.read_piece hbs hle

/-- A range of addresses that is placed in the file is placed by one section. Every piece of it is
placed too. When no section listed after that one has an address of the range, each piece lies where
the range has it, and a range that can be read reads the same at once and in any pieces. On the way
no number exceeds 64 bits, for any range whatsoever. -/
theorem pieces_of_fileOffset (e : Executable) {address length offset : Nat}
    (h : e.fileOffset address length = some offset) :
    ∃ s later, SectionHeader.Places e.sections s later address length ∧
      offset = s.offsetOf address ∧
      (∀ skip n, 0 < n → skip + n ≤ length → (e.fileOffset (address + skip) n).isSome) ∧
      ((∀ x ∈ later, ¬ x.Meets address length) →
        (∀ skip n, 0 < n → skip + n ≤ length →
          e.fileOffset (address + skip) n = some (offset + skip)) ∧
        ∀ bs, e.memory address length = some bs →
          (∀ skip n, 0 < n → skip + n ≤ length →
            e.memory (address + skip) n = some ((bs.drop skip).take n)) ∧
          ∀ lengths : List Nat, (∀ n ∈ lengths, 0 < n) → lengths.sum = length →
            e.memory.pieces address lengths = some bs) ∧
      (s.virtualAddress.toNat + s.sizeOfRawData.toNat < 2 ^ 64 ∧ address + length < 2 ^ 64 ∧
        offset + length < 2 ^ 64) ∧
      ∀ a n, Machine.resolve e.sections a n = .ok (e.fileOffset a n) := by
  obtain ⟨s, later, hplaces, rfl⟩ := SectionHeader.resolve_eq_some_iff.mp h
  refine ⟨s, later, hplaces, rfl, ?_, ?_, hplaces.ends_lt, Machine.resolve_eq e.sections⟩
  · intro skip n _ hle
    exact hplaces.isSome_piece hle
  -- The last section that holds a range answers for it, and a later one could take a piece.
  · intro hlater
    have hoffset (skip n : Nat) (hn : 0 < n) (hle : skip + n ≤ length) :
        e.fileOffset (address + skip) n = some (s.offsetOf address + skip) :=
      hplaces.resolve_piece hlater hn hle
    refine ⟨hoffset, fun bs hbs => ?_⟩
    have hread (skip n : Nat) (hn : 0 < n) (hle : skip + n ≤ length) :
        e.memory (address + skip) n = some ((bs.drop skip).take n) :=
      memory_piece hbs h (hoffset skip n hn hle) hle
    refine ⟨hread, fun lengths hpos hsum => ?_⟩
    have hlength : bs.length = length := e.memory_exact _ _ _ hbs
    rw [← hlength] at hread hsum
    exact Memory.pieces_eq hread hpos hsum

/-- An image with a section that reaches past the last address. It lies in a larger section that is
listed before it, and another section is listed after it. -/
def topImage : Image :=
  Build.image ⟨0, 0⟩ [(0xFFFFFFF0, List.replicate 32 0),
    (0xFFFFFFF8, (List.range 16).map UInt8.ofNat), (0x1000, [1, 2, 3, 4])]

/-- A range that reaches past the last address reads the same at once and in three pieces. -/
theorem pieces_of_fileOffset_top : ∃ e offset bs, parse topImage = .ok e ∧
    e.fileOffset 0xFFFFFFF8 16 = some offset ∧
    e.fileOffset (0xFFFFFFF8 + 5) 7 = some (offset + 5) ∧
    e.memory 0xFFFFFFF8 16 = some bs ∧ bs = (List.range 16).map UInt8.ofNat ∧
    e.memory.pieces 0xFFFFFFF8 [1, 7, 8] = some bs := by
  obtain ⟨e, he, hoffset, hbs, hsections⟩ : ∃ e, parse topImage = .ok e ∧
      (e.fileOffset 0xFFFFFFF8 16).isSome ∧
      e.memory 0xFFFFFFF8 16 = some ((List.range 16).map UInt8.ofNat) ∧
      ∀ x ∈ e.sections, x.maps 0xFFFFFFF8 16 ∨
        x.virtualAddress.toNat + x.sizeOfRawData.toNat ≤ 0xFFFFFFF8 :=
    Build.exists_of_any (by decide +kernel)
  obtain ⟨offset, hoffset⟩ := Option.isSome_iff_exists.mp hoffset
  obtain ⟨s, later, hplaces, -, -, hpieces, -⟩ := pieces_of_fileOffset e hoffset
  have hlater : ∀ x ∈ later, ¬ x.Meets 0xFFFFFFF8 16 := by
    rintro x hx ⟨a, hstart, -, hmaps⟩
    obtain ⟨earlier, hlisted⟩ := hplaces.listed
    rcases hsections x (by simp [hlisted, hx]) with hwhole | hbelow
    · exact hplaces.last x hx hwhole
    · obtain ⟨-, hstop⟩ := SectionHeader.maps_iff.mp hmaps
      omega
  obtain ⟨hoffsets, hbytes⟩ := hpieces hlater
  obtain ⟨-, hread⟩ := hbytes _ hbs
  exact ⟨e, offset, _, he, hoffset, hoffsets 5 7 (by decide) (by decide), hbs, rfl,
    hread [1, 7, 8] (by decide) (by decide)⟩

end Executable

end PeCoff
