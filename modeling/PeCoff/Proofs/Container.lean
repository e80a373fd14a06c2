import Mathlib
import PeCoff.Proofs.Headers
import PeCoff.Proofs.Resolution

/-!
# Laying out an image

An image is laid out as its headers, one after the other, and the contents of its sections, each
padded to the alignment of the file. The main statement is `Container.parse_image`: what is laid out
is decoded again, and the memory of the image holds the contents of the sections at their addresses
and nothing else.
-/

namespace PeCoff

/-! ## Padding -/

/-- The next multiple of an alignment. -/
def alignUp (alignment n : Nat) : Nat :=
  (n + alignment - 1) / alignment * alignment

/-- Rounding up does not make a number smaller. -/
lemma le_alignUp {alignment : Nat} (hpos : 0 < alignment) (n : Nat) : n ≤ alignUp alignment n := by
  have hdiv := Nat.div_add_mod (n + alignment - 1) alignment
  have hmod := Nat.mod_lt (n + alignment - 1) hpos
  rw [alignUp, Nat.mul_comm]
  omega

/-- The string, with zeros behind it up to the next multiple of an alignment. -/
def Bytes.padded (alignment : Nat) (bs : Bytes) : Bytes :=
  bs ++ List.replicate (alignUp alignment bs.length - bs.length) 0

/-- Padded bytes are as many as their number rounded up. -/
lemma Bytes.length_padded {alignment : Nat} (hpos : 0 < alignment) (bs : Bytes) :
    (bs.padded alignment).length = alignUp alignment bs.length := by
  have hle := le_alignUp hpos bs.length
  rw [padded, List.length_append, List.length_replicate]
  omega

/-! ## Optional headers -/

namespace OptionalHeader

/-- The unit to which the sections are padded in the file. -/
def fileAlignment : OptionalHeader → UInt32
  | narrow fields => fields.fileAlignment
  | wide fields => fields.fileAlignment

/-- The header with the signature of its layout, in which all slots are declared. -/
def complete : OptionalHeader → OptionalHeader
  | narrow fields =>
    narrow { fields with magic := narrowMagic, declaredSlots := UInt32.ofNat slotCount }
  | wide fields =>
    wide { fields with magic := wideMagic, declaredSlots := UInt32.ofNat slotCount }

variable (h : OptionalHeader)

/-- A completed header is wide exactly when its magic number says so. -/
lemma isWide_complete_iff : h.complete.isWide ↔ h.complete.magic = wideMagic := by
  cases h with
  | narrow fields => exact iff_of_false Bool.false_ne_true (show narrowMagic ≠ wideMagic by decide)
  | wide fields => exact iff_of_true rfl rfl

/-- The size of an optional header fits into its field. -/
lemma length_write_complete_lt : h.complete.write.length < 2 ^ 16 := by
  cases h with
  | narrow fields =>
    rw [complete, write, Layout.length_write]
    decide
  | wide fields =>
    rw [complete, write, Layout.length_write]
    decide

/-- A completed header declares all of its directories. -/
lemma slot?_complete (i : Nat) : h.complete.slot? i = h.slots[i]? := by
  have hslots : h.complete.slots = h.slots := by
    cases h with
    | narrow fields => rfl
    | wide fields => rfl
  have hdeclared : h.complete.declaredSlots.toNat = slotCount := by
    cases h with
    | narrow fields => rfl
    | wide fields => rfl
  rw [slot?, hslots, hdeclared, ite_eq_left_iff, eq_comm]
  exact fun hi => Vector.getElem?_eq_none (Nat.not_lt.mp hi)

end OptionalHeader

/-! ## Containers -/

namespace Container

/-- A section of an image that is to be laid out. -/
structure Part where
  /-- The header, of which the size and the place in the file are left to the layout. -/
  header : SectionHeader
  /-- The bytes of the section before they are padded. -/
  data : Bytes

namespace Part

/-- The bytes of the section in the file. -/
def content (alignment : Nat) (p : Part) : Bytes :=
  p.data.padded alignment

/-- The addresses of the section. -/
def addresses (alignment : Nat) (p : Part) : Set Nat :=
  Set.Ico p.header.virtualAddress.toNat
    (p.header.virtualAddress.toNat + (p.content alignment).length)

/-- The bytes of the section at a range of its addresses. -/
def bytesAt (alignment : Nat) (p : Part) (address length : Nat) : Bytes :=
  ((p.content alignment).drop (address - p.header.virtualAddress.toNat)).take length

end Part

end Container

/-- What an image is made of. Where one header counts or places another, its value there is left to
the layout. -/
structure Container where
  dosHeader : DosHeader
  coffHeader : CoffHeader
  optionalHeader : OptionalHeader
  parts : List Container.Part

namespace Container

/-- The headers of sections whose contents follow each other from an offset on. -/
def sectionsFrom (alignment : Nat) : (offset : Nat) → List Part → List SectionHeader
  | _, [] => []
  | offset, p :: parts =>
    { p.header with
      sizeOfRawData := UInt32.ofNat (p.content alignment).length
      pointerToRawData := UInt32.ofNat offset }
        :: sectionsFrom alignment (offset + (p.content alignment).length) parts

variable (c : Container)

/-- The unit to which the headers and the sections are padded. -/
def alignment : Nat :=
  c.optionalHeader.fileAlignment.toNat

/-- The optional header as it is laid out. -/
def fullHeader : OptionalHeader :=
  c.optionalHeader.complete

/-- The file offset of the section table. -/
def tableOffset : Nat :=
  DosHeader.size + Layout.u32.size + CoffHeader.layout.size + c.fullHeader.write.length

/-- The file offset of the first section. -/
def contentOffset : Nat :=
  alignUp c.alignment (c.tableOffset + c.parts.length * SectionHeader.layout.size)

/-- The section headers as they are laid out. -/
def sections : List SectionHeader :=
  sectionsFrom c.alignment c.contentOffset c.parts

/-- The DOS header as it is laid out: it leads to the signature that follows it. -/
def leadingHeader : DosHeader :=
  { c.dosHeader with newHeader := (UInt32.ofNat DosHeader.size).toInt32 }

/-- The COFF header as it is laid out. -/
def fileHeader : CoffHeader :=
  { c.coffHeader with
    numberOfSections := UInt16.ofNat c.parts.length
    sizeOfOptionalHeader := UInt16.ofNat c.fullHeader.write.length }

/-- The headers, one after the other. -/
def headerBytes : Bytes :=
  c.leadingHeader.write ++ Layout.u32.write Image.peSignature
    ++ CoffHeader.layout.write c.fileHeader ++ c.fullHeader.write
    ++ c.sections.flatMap SectionHeader.layout.write

/-- The file: the headers, padded, and the contents of the sections. -/
def image : Image :=
  .ofList (c.headerBytes.padded c.alignment ++ c.parts.flatMap (Part.content c.alignment))

/-- The headers that were laid out, with their file. -/
def executable : Executable where
  image := c.image
  dosHeader := c.leadingHeader
  headerOffset := DosHeader.size
  coffHeader := c.fileHeader
  optionalHeader := c.fullHeader
  sections := c.sections

/-- Everything that is laid out fits into its place. -/
structure WellFormed (c : Container) : Prop where
  alignment_pos : 0 < c.alignment
  length_parts_lt : c.parts.length < 2 ^ 16
  size_lt : c.image.size < 2 ^ 32
  /-- No section has address zero, at which nothing is found. -/
  address_pos : ∀ p ∈ c.parts, 0 < p.header.virtualAddress.toNat
  disjoint : c.parts.Pairwise fun p q =>
    Disjoint (p.addresses c.alignment) (q.addresses c.alignment)

/-! ## Sections in the file -/

section Related

variable {α β : Type} {R : α → β → Prop} {as : List α} {bs : List β}

/-- Each element of the first list has one of the second list that is related to it. -/
lemma exists_of_mem_left (h : List.Forall₂ R as bs) {a : α} (ha : a ∈ as) : ∃ b ∈ bs, R a b := by
  induction h with
  | nil => cases ha
  | @cons a' b as bs hab h ih =>
    rcases List.mem_cons.mp ha with rfl | ha
    · exact ⟨b, List.mem_cons_self, hab⟩
    · obtain ⟨b', hb', hab'⟩ := ih ha
      exact ⟨b', List.mem_cons_of_mem b hb', hab'⟩

/-- Each element of the second list has one of the first list that it is related to. -/
lemma exists_of_mem_right (h : List.Forall₂ R as bs) {b : β} (hb : b ∈ bs) : ∃ a ∈ as, R a b :=
  exists_of_mem_left h.flip hb

end Related

/-- A section header describes a part whose content the file holds. -/
structure LaidOut (image : Image) (alignment : Nat) (s : SectionHeader) (p : Part) : Prop where
  virtualAddress_eq : s.virtualAddress = p.header.virtualAddress
  size_eq : s.sizeOfRawData.toNat = (p.content alignment).length
  aligned : alignment ∣ s.pointerToRawData.toNat
  holds : image.Holds s.pointerToRawData.toNat (p.content alignment)

variable {image : Image} {alignment offset : Nat} {parts : List Part}

/-- Each part becomes a section. -/
lemma length_sectionsFrom : (sectionsFrom alignment offset parts).length = parts.length := by
  induction parts generalizing offset with
  | nil => rfl
  | cons p parts ih => rw [sectionsFrom, List.length_cons, List.length_cons, ih]

/-- The headers laid out for contents describe them where a file holds them one after the other. -/
lemma forall₂_sectionsFrom (hpos : 0 < alignment) (hsize : image.size < 2 ^ 32)
    (halign : alignment ∣ offset)
    (hheld : image.Holds offset (parts.flatMap (Part.content alignment))) :
    List.Forall₂ (LaidOut image alignment) (sectionsFrom alignment offset parts) parts := by
  induction parts generalizing offset with
  | nil => exact .nil
  | cons p parts ih =>
    rw [List.flatMap_cons] at hheld
    obtain ⟨hcontent, hrest⟩ := Image.holds_append_iff.mp hheld
    have hend := hcontent.end_le
    have hword : UInt32.size = 2 ^ 32 := rfl
    have hoffset : (UInt32.ofNat offset).toNat = offset := UInt32.toNat_ofNat_of_lt (by omega)
    have hlength : (UInt32.ofNat (p.content alignment).length).toNat =
        (p.content alignment).length := UInt32.toNat_ofNat_of_lt (by omega)
    have hcontentLength : alignment ∣ (p.content alignment).length := by
      rw [Part.content, Bytes.length_padded hpos]
      exact Nat.dvd_mul_left _ _
    refine .cons ⟨rfl, hlength, ?_, ?_⟩ (ih (Nat.dvd_add halign hcontentLength) hrest)
    · exact hoffset.symm ▸ halign
    · exact hoffset.symm ▸ hcontent

variable {c : Container}

/-! ## Headers in the file -/

/-- The headers end with the section table. -/
lemma length_headerBytes :
    c.headerBytes.length = c.tableOffset + c.parts.length * SectionHeader.layout.size := by
  have htable : (c.sections.flatMap SectionHeader.layout.write).length =
      c.parts.length * SectionHeader.layout.size := by
    rw [List.length_flatMap, List.map_congr_left fun s _ => SectionHeader.layout.length_write s,
      List.map_const', List.sum_replicate, smul_eq_mul, sections, length_sectionsFrom]
  simp only [headerBytes, List.length_append, DosHeader.length_write, Layout.length_write, htable,
    tableOffset]

/-- A laid-out image holds its headers, and behind them the contents of its sections. -/
lemma holds_image (hpos : 0 < c.alignment) : c.image.Holds 0 c.headerBytes ∧
    c.image.Holds c.contentOffset (c.parts.flatMap (Part.content c.alignment)) := by
  have hwhole : c.image.Holds 0 (c.headerBytes.padded c.alignment
      ++ c.parts.flatMap (Part.content c.alignment)) := by
    rw [image]
    simpa using Image.holds_ofList [] (c.headerBytes.padded c.alignment
      ++ c.parts.flatMap (Part.content c.alignment)) []
  obtain ⟨hheaders, hcontents⟩ := Image.holds_append_iff.mp hwhole
  rw [Nat.zero_add, Bytes.length_padded hpos, length_headerBytes] at hcontents
  exact ⟨(Image.holds_append_iff.mp hheaders).1, hcontents⟩

/-- The bytes of a section in the file are its padded data. -/
lemma sectionData_eq {s : SectionHeader} {p : Part} (hlaid : LaidOut c.image c.alignment s p) :
    c.executable.sectionData s = some (p.content c.alignment) := by
  rw [Executable.sectionData, hlaid.size_eq]
  exact hlaid.holds

namespace WellFormed

variable (h : c.WellFormed)
include h

/-- The headers that are laid out are those that the file holds. -/
lemma decodedFrom : c.executable.DecodedFrom c.image := by
  obtain ⟨hheaders, -⟩ := holds_image h.alignment_pos
  simp only [headerBytes, Image.holds_append_iff, List.length_append, DosHeader.length_write,
    Layout.length_write, Nat.zero_add] at hheaders
  obtain ⟨⟨⟨⟨hdos, hsignature⟩, hcoff⟩, hoptional⟩, htable⟩ := hheaders
  have hcount : c.fileHeader.numberOfSections.toNat = c.sections.length := by
    rw [sections, length_sectionsFrom]
    exact UInt16.toNat_ofNat_of_lt h.length_parts_lt
  have hsize : c.fileHeader.sizeOfOptionalHeader.toNat = c.fullHeader.write.length :=
    UInt16.toNat_ofNat_of_lt c.optionalHeader.length_write_complete_lt
  constructor
  case image_eq => rfl
  case dosHeader => exact DosHeader.readFrom_of_holds hdos
  case headerOffset => rfl
  case signature => exact Image.record?_eq_some_iff_holds.mpr hsignature
  case coffHeader => exact Image.record?_eq_some_iff_holds.mpr hcoff
  case optionalHeader =>
    exact (OptionalHeader.readFrom_of_holds c.optionalHeader.isWide_complete_iff hsize.ge
      hoptional).symm
  case sections =>
    have hread := SectionHeader.readTable_of_holds htable
    simp only [executable, Executable.sectionTableOffset, hcount, hsize]
    exact hread.symm

/-- The section headers that are laid out describe the sections. -/
lemma forall₂_sections : List.Forall₂ (LaidOut c.image c.alignment) c.sections c.parts := by
  obtain ⟨-, hcontents⟩ := holds_image h.alignment_pos
  exact forall₂_sectionsFrom h.alignment_pos h.size_lt (Nat.dvd_mul_left _ _) hcontents

/-- Sections with a common address are one section. -/
lemma eq_of_mem_addresses {p q : Part} {a : Nat} (hp : p ∈ c.parts) (hq : q ∈ c.parts)
    (hap : a ∈ p.addresses c.alignment) (haq : a ∈ q.addresses c.alignment) : p = q := by
  by_contra hne
  have hsymm : Std.Symm fun p q : Part =>
      Disjoint (p.addresses c.alignment) (q.addresses c.alignment) :=
    ⟨fun _ _ hpq => hpq.symm⟩
  exact Set.disjoint_left.mp (h.disjoint.forall hp hq hne) hap haq

/-- A range that is placed in the file lies in one of the sections and reads as its content. -/
lemma memory_of_fileOffset {address n offset : Nat}
    (hoffset : c.executable.fileOffset address n = some offset) :
    ∃ p ∈ c.parts, p.header.virtualAddress.toNat ≤ address ∧
      address + n ≤ p.header.virtualAddress.toNat + (p.content c.alignment).length ∧
      c.executable.memory address n = some (p.bytesAt c.alignment address n) := by
  obtain ⟨s, later, hplaces, hs⟩ := SectionHeader.resolve_eq_some_iff.mp hoffset
  obtain ⟨earlier, hlisted⟩ := hplaces.listed
  have hmem : s ∈ c.sections := by
    rw [show c.sections = _ from hlisted]
    exact List.mem_append_right _ List.mem_cons_self
  obtain ⟨p, hp, hlaid⟩ := exists_of_mem_left h.forall₂_sections hmem
  obtain ⟨hstart, hstop⟩ := SectionHeader.maps_iff.mp hplaces.maps
  rw [hlaid.virtualAddress_eq] at hstart
  rw [hlaid.virtualAddress_eq, hlaid.size_eq] at hstop
  refine ⟨p, hp, hstart, hstop, ?_⟩
  rw [Executable.memory, hoffset, Option.bind_some, hs, SectionHeader.offsetOf,
    hlaid.virtualAddress_eq]
  exact Image.read_piece hlaid.holds (by omega)

/-- The memory at a range is that of the section that has all of its addresses. -/
lemma memory_eq_some_iff {address n : Nat} (hn : 0 < n) {bs : Bytes} :
    c.executable.memory address n = some bs ↔
      ∃ p ∈ c.parts, Set.Ico address (address + n) ⊆ p.addresses c.alignment ∧
        bs = p.bytesAt c.alignment address n := by
  have hlt : address < address + n := Nat.lt_add_of_pos_right hn
  have hsubset (p : Part) : Set.Ico address (address + n) ⊆ p.addresses c.alignment ↔
      p.header.virtualAddress.toNat ≤ address ∧
        address + n ≤ p.header.virtualAddress.toNat + (p.content c.alignment).length :=
    Set.Ico_subset_Ico_iff hlt
  constructor
  · intro hbs
    obtain ⟨offset, hoffset, -⟩ := Option.bind_eq_some_iff.mp hbs
    obtain ⟨p, hp, hstart, hstop, hread⟩ := h.memory_of_fileOffset hoffset
    rw [hbs] at hread
    exact ⟨p, hp, (hsubset p).mpr ⟨hstart, hstop⟩, Option.some.inj hread⟩
  · rintro ⟨p, hp, hrange, rfl⟩
    obtain ⟨hstart, hstop⟩ := (hsubset p).mp hrange
    obtain ⟨s, hs, hlaid⟩ := exists_of_mem_right h.forall₂_sections hp
    have hmaps : s.maps address n := by
      rw [SectionHeader.maps_iff, hlaid.virtualAddress_eq, hlaid.size_eq]
      exact ⟨hstart, hstop⟩
    have hpos := h.address_pos p hp
    -- The last section that has the range places it. As sections are disjoint, it is this one.
    obtain ⟨offset, hoffset⟩ := Option.isSome_iff_exists.mp
      (SectionHeader.isSome_resolve (by omega) hs hmaps)
    obtain ⟨q, hq, hqstart, hqstop, hread⟩ := h.memory_of_fileOffset hoffset
    have hpq := h.eq_of_mem_addresses hp hq (hrange ⟨le_rfl, hlt⟩) ⟨hqstart, by omega⟩
    rw [hpq]
    exact hread

/-- A range of the content of a section is read at the addresses of that range. -/
lemma memory_content {p : Part} (hp : p ∈ c.parts) {k n : Nat} (hn : 0 < n)
    (hle : k + n ≤ (p.content c.alignment).length) :
    c.executable.memory (p.header.virtualAddress.toNat + k) n =
      some (((p.content c.alignment).drop k).take n) := by
  refine (h.memory_eq_some_iff hn).mpr ⟨p, hp, ?_, ?_⟩
  · exact Set.Ico_subset_Ico (Nat.le_add_right _ _) (by omega)
  · rw [Part.bytesAt, Nat.add_sub_cancel_left]

/-- A range with an address that no section has cannot be read. -/
lemma memory_eq_none {address n a : Nat} (ha : a ∈ Set.Ico address (address + n))
    (hnone : ∀ p ∈ c.parts, a ∉ p.addresses c.alignment) :
    c.executable.memory address n = none := by
  obtain ⟨hstart, hstop⟩ := ha
  refine Option.eq_none_iff_forall_ne_some.mpr fun bs hbs => ?_
  obtain ⟨p, hp, hrange, -⟩ := (h.memory_eq_some_iff (by omega)).mp hbs
  exact hnone p hp (hrange ⟨hstart, hstop⟩)

/-- A directory that is not empty is found when a section has all of it. -/
lemma directory_eq_some_iff {i : Nat} {range found : DataDirectory} {bs : Bytes}
    (hrange : c.optionalHeader.slots[i]? = some range) (hsize : range.size ≠ 0) :
    c.executable.directory i = some (found, bs) ↔ range = found ∧
      ∃ p ∈ c.parts, Set.Ico range.address.toNat (range.address.toNat + range.size.toNat) ⊆
          p.addresses c.alignment ∧
        bs = p.bytesAt c.alignment range.address.toNat range.size.toNat := by
  have hpos : 0 < range.size.toNat :=
    Nat.pos_of_ne_zero fun hzero => hsize (UInt32.toNat_inj.mp hzero)
  have hslot : c.executable.dataDirectory i = some range :=
    (c.optionalHeader.slot?_complete i).trans hrange
  rw [← h.memory_eq_some_iff hpos, Executable.directory, hslot, Option.bind_eq_bind,
    Option.bind_some, Option.bind_eq_bind, Option.bind_eq_some_iff]
  simp only [Option.pure_def, Option.some_inj, Prod.mk.injEq]
  constructor
  · rintro ⟨_, hread, hfound, rfl⟩
    exact ⟨hfound, hread⟩
  · rintro ⟨hfound, hread⟩
    exact ⟨bs, hread, hfound, rfl⟩

end WellFormed

/-- What is laid out is decoded again. The headers are those that were laid out, with the slots of
the container. The bytes of each section in the file are its padded data, at an aligned offset. They
are found in memory at the addresses of the section, in every piece, and no range is found that has
an address which no section has. A directory that is not empty is found exactly when one section has
all of it. -/
theorem parse_image (h : c.WellFormed) :
    Executable.parse c.image = .ok c.executable ∧
    (∀ i, c.executable.dataDirectory i = c.optionalHeader.slots[i]?) ∧
    List.Forall₂ (fun s p => c.alignment ∣ s.pointerToRawData.toNat ∧
        c.executable.sectionData s = some (p.content c.alignment))
      c.executable.sections c.parts ∧
    (∀ p ∈ c.parts, ∀ k n, 0 < n → k + n ≤ (p.content c.alignment).length →
      c.executable.memory (p.header.virtualAddress.toNat + k) n =
        some (((p.content c.alignment).drop k).take n)) ∧
    (∀ address n, ∀ a ∈ Set.Ico address (address + n),
      (∀ p ∈ c.parts, a ∉ p.addresses c.alignment) → c.executable.memory address n = none) ∧
    ∀ i range, c.optionalHeader.slots[i]? = some range → range.size ≠ 0 →
      ∀ found bs, c.executable.directory i = some (found, bs) ↔ range = found ∧
        ∃ p ∈ c.parts, Set.Ico range.address.toNat (range.address.toNat + range.size.toNat) ⊆
            p.addresses c.alignment ∧
          bs = p.bytesAt c.alignment range.address.toNat range.size.toNat := by
  refine ⟨Executable.parse_eq_ok_iff.mpr h.decodedFrom, c.optionalHeader.slot?_complete, ?_, ?_,
    ?_, ?_⟩
  · exact h.forall₂_sections.imp fun s p hlaid => ⟨hlaid.aligned, sectionData_eq hlaid⟩
  · exact fun p hp k n => h.memory_content hp
  · exact fun address n a => h.memory_eq_none
  · exact fun i range hrange hsize found bs => h.directory_eq_some_iff hrange hsize

/-- A wide image with two sections at adjacent addresses. The first of its directories lies in the
first section, the second one in both. -/
def adjacent : Container where
  dosHeader := ⟨4, 64, 0⟩
  coffHeader := { CoffHeader.layout.read fun _ => 0 with machine := machineAmd64 }
  optionalHeader := .wide { OptionalHeader.wideLayout.read fun _ => 0 with
    fileAlignment := 16
    slots := Vector.ofFn fun i => [⟨0x1002, 6⟩, ⟨0x100C, 8⟩].getD i.val ⟨0, 0⟩ }
  parts := [
    ⟨{ SectionHeader.layout.read fun _ => 0 with virtualAddress := 0x1000 },
      [1, 2, 3, 4, 5, 6, 7, 8, 9]⟩,
    ⟨{ SectionHeader.layout.read fun _ => 0 with virtualAddress := 0x1010 }, [10, 11]⟩]

/-- The image is decoded; its first section reads with the padding, no range is read past the second
one, and of the directories the first is found. -/
theorem parse_image_adjacent : adjacent.WellFormed ∧
    Executable.parse adjacent.image = .ok adjacent.executable ∧
    adjacent.executable.sections.length = 2 ∧
    adjacent.executable.memory (0x1000 + 7) 3 = some [8, 9, 0] ∧
    adjacent.executable.memory 0x101F 2 = none ∧
    adjacent.executable.directory 0 = some (⟨0x1002, 6⟩, [3, 4, 5, 6, 7, 8]) ∧
    adjacent.executable.directory 1 = none := by
  have hwell : adjacent.WellFormed := {
    alignment_pos := by decide
    length_parts_lt := by decide
    size_lt := by decide +kernel
    address_pos := by decide
    disjoint := List.pairwise_pair.mpr (Set.Ico_disjoint_Ico.mpr (by decide)) }
  obtain ⟨hparse, -, hsections, hcontent, hnone, hdirectory⟩ := parse_image hwell
  -- The two sections follow each other without a gap.
  have hends (p : Part) (hp : p ∈ adjacent.parts) :
      p.addresses adjacent.alignment = Set.Ico 0x1000 0x1010 ∨
        p.addresses adjacent.alignment = Set.Ico 0x1010 0x1020 := by
    rcases List.mem_pair.mp hp with rfl | rfl
    · exact Or.inl rfl
    · exact Or.inr rfl
  refine ⟨hwell, hparse, hsections.length_eq, ?_, ?_, ?_, ?_⟩
  · exact hcontent _ List.mem_cons_self 7 3 (by decide) (by decide)
  · refine hnone 0x101F 2 0x1020 ⟨by decide, by decide⟩ fun p hp hmem => ?_
    rcases hends p hp with heq | heq
    · rw [heq] at hmem
      exact absurd hmem.2 (by decide)
    · rw [heq] at hmem
      exact absurd hmem.2 (by decide)
  · exact (hdirectory 0 ⟨0x1002, 6⟩ rfl (by decide) _ _).mpr ⟨rfl, _, List.mem_cons_self,
      Set.Ico_subset_Ico (by decide) (by decide), by decide⟩
  -- The second directory begins in the first section and ends in the second one, which neither
  -- holds.
  · refine Option.eq_none_iff_forall_ne_some.mpr fun found hfound => ?_
    obtain ⟨-, p, hp, hrange, -⟩ :=
      (hdirectory 1 ⟨0x100C, 8⟩ rfl (by decide) found.1 found.2).mp hfound
    have hfirst := hrange (show 0x100C ∈ Set.Ico 0x100C (0x100C + 8) from ⟨by decide, by decide⟩)
    have hlast := hrange (show 0x1013 ∈ Set.Ico 0x100C (0x100C + 8) from ⟨by decide, by decide⟩)
    rcases hends p hp with heq | heq
    · rw [heq] at hlast
      exact absurd hlast.2 (by decide)
    · rw [heq] at hfirst
      exact absurd hfirst.1 (by decide)

end Container

end PeCoff
