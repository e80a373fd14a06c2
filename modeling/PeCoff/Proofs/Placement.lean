import Mathlib
import PeCoff.Proofs.Parsing
import PeCoff.Proofs.Resolution

/-!
# Placement of sections in the file

Where a section lies in the file, and what the file holds outside of its sections, has no influence
on what is decoded through addresses. The main statement is `sameDirectories_of_rearranged`: two
images whose headers agree but for the places of the sections, and whose sections hold the same
bytes, have the same directories. It rests on `memory_eq`, by which they have the same memory.
-/

namespace PeCoff.Executable

/-- Two sections have the same addresses, and the bytes of both are in their files and are the same,
maybe in different places. Nothing is asked of the place of an empty section. -/
structure SameContents (e₁ e₂ : Executable) (s₁ s₂ : SectionHeader) : Prop where
  virtualAddress_eq : s₁.virtualAddress = s₂.virtualAddress
  sizeOfRawData_eq : s₁.sizeOfRawData = s₂.sizeOfRawData
  byte_eq : ∀ i < s₁.sizeOfRawData.toNat, ∃ b,
    e₁.image.toList[s₁.pointerToRawData.toNat + i]? = some b ∧
      e₂.image.toList[s₂.pointerToRawData.toNat + i]? = some b

/-- Two sections have the same contents, and when they are empty, both or none of them is said to
lie behind the end of its file. A range of no bytes can be read up to there. -/
structure Rearranged.Section (e₁ e₂ : Executable) (s₁ s₂ : SectionHeader) : Prop
    extends SameContents e₁ e₂ s₁ s₂ where
  empty_iff : s₁.sizeOfRawData = 0 →
    (s₁.pointerToRawData.toNat ≤ e₁.image.size ↔ s₂.pointerToRawData.toNat ≤ e₂.image.size)

/-- Two images differ at most in the places of their sections, in what lies outside of the sections,
and in the headers that no address depends on. -/
structure Rearranged (e₁ e₂ : Executable) : Prop where
  optionalHeader_eq : e₁.optionalHeader = e₂.optionalHeader
  sections : List.Forall₂ (Rearranged.Section e₁ e₂) e₁.sections e₂.sections

/-- Two images have the same directories, those apart that are placed by file offset. -/
structure SameDirectories (e₁ e₂ : Executable) : Prop where
  exports : e₁.exports = e₂.exports
  exportSymbols : ∀ tag, e₁.exportSymbols tag = e₂.exportSymbols tag
  imports : e₁.imports = e₂.imports
  delayedImports : e₁.delayedImports = e₂.delayedImports
  resources : e₁.resources = e₂.resources
  relocations : e₁.relocations = e₂.relocations
  threadStorage : e₁.threadStorage = e₂.threadStorage
  commonRuntime : e₁.commonRuntime = e₂.commonRuntime
  exceptions : e₁.exceptions = e₂.exceptions

variable {e₁ e₂ : Executable} {s₁ s₂ : SectionHeader}

/-- Of two lists with related elements the first matches are related, if the questions agree on
related elements. -/
lemma rel_find?_of_forall₂ {α : Type} {R : α → α → Prop} {p q : α → Bool} {xs ys : List α}
    (h : List.Forall₂ R xs ys) (hpq : ∀ x y, R x y → p x = q y) :
    Option.Rel R (xs.find? p) (ys.find? q) := by
  induction h with
  | nil => exact .none
  | @cons x y xs ys hxy _ ih =>
    rw [List.find?_cons, List.find?_cons, ← hpq x y hxy]
    cases p x with
    | true => exact .some hxy
    | false => exact ih

/-- Both sections hold the same ranges of addresses. -/
lemma Rearranged.Section.maps_eq (h : Rearranged.Section e₁ e₂ s₁ s₂) (address length : Nat) :
    s₁.maps address length = s₂.maps address length := by
  rw [SectionHeader.maps, SectionHeader.maps, h.virtualAddress_eq, h.sizeOfRawData_eq]

/-- Files read the same where they have the same bytes. -/
lemma read_eq_of_bytes {image₁ image₂ : Image} {offset₁ offset₂ n : Nat} (hn : n ≠ 0)
    (h : ∀ i < n, ∃ b, image₁.toList[offset₁ + i]? = some b ∧
      image₂.toList[offset₂ + i]? = some b) :
    ∃ bs, image₁.read offset₁ n = some bs ∧ image₂.read offset₂ n = some bs := by
  have hbytes : (image₁.toList.drop offset₁).take n = (image₂.toList.drop offset₂).take n := by
    refine List.ext_getElem? fun i => ?_
    rw [List.getElem?_take, List.getElem?_take, List.getElem?_drop, List.getElem?_drop]
    by_cases hi : i < n
    · obtain ⟨b, h₁, h₂⟩ := h i hi
      rw [if_pos hi, if_pos hi, h₁, h₂]
    · rw [if_neg hi, if_neg hi]
  -- The last byte of the range is inside both files.
  obtain ⟨b, h₁, h₂⟩ := h (n - 1) (by omega)
  have hlast₁ := (List.getElem?_eq_some_iff.mp h₁).1
  have hlast₂ := (List.getElem?_eq_some_iff.mp h₂).1
  rw [Image.length_toList] at hlast₁ hlast₂
  exact ⟨_, (Image.read_eq_some_iff _ _ _ _).mpr ⟨by omega, rfl⟩,
    (Image.read_eq_some_iff _ _ _ _).mpr ⟨by omega, hbytes⟩⟩

/-- A range that both sections hold reads the same in both. -/
lemma Rearranged.Section.read_eq (h : Rearranged.Section e₁ e₂ s₁ s₂) {address length : Nat}
    (hmaps : s₁.maps address length) :
    e₁.image.read (s₁.offsetOf address) length = e₂.image.read (s₂.offsetOf address) length := by
  obtain ⟨hstart, hstop⟩ := SectionHeader.maps_iff.mp hmaps
  simp only [SectionHeader.offsetOf, ← h.virtualAddress_eq]
  by_cases hempty : s₁.sizeOfRawData = 0
  -- An empty section holds the empty range at its start, which is read if the file goes so far.
  · have hsize : s₁.sizeOfRawData.toNat = 0 := by rw [hempty]; rfl
    have hlength : length = 0 := by omega
    have hskip : address - s₁.virtualAddress.toNat = 0 := by omega
    refine Option.ext fun bs => ?_
    rw [hlength, hskip, Image.read_eq_some_iff, Image.read_eq_some_iff, List.take_zero,
      List.take_zero]
    exact and_congr_left fun _ => h.empty_iff hempty
  · have hpos : s₁.sizeOfRawData.toNat ≠ 0 := fun hzero => hempty (UInt32.toNat_inj.mp hzero)
    obtain ⟨bs, hbs₁, hbs₂⟩ := read_eq_of_bytes hpos h.byte_eq
    have hle : address - s₁.virtualAddress.toNat + length ≤ s₁.sizeOfRawData.toNat := by omega
    exact (Image.read_piece hbs₁ hle).trans (Image.read_piece hbs₂ hle).symm

/-- Images that differ in the places of their sections have the same memory. -/
lemma Rearranged.memory_eq (h : Rearranged e₁ e₂) : e₁.memory = e₂.memory := by
  funext address length
  have hfind := rel_find?_of_forall₂ (List.forall₂_reverse_iff.mpr h.sections)
    fun s₁ s₂ hs => hs.maps_eq address length
  have hmaps (s : SectionHeader) :
      e₁.sections.reverse.find? (fun x => x.maps address length) = some s →
        s.maps address length :=
    List.find?_some (p := fun x : SectionHeader => x.maps address length)
  simp only [memory, fileOffset, SectionHeader.resolve]
  by_cases haddress : address = 0
  · rw [if_pos haddress, if_pos haddress]
    rfl
  rw [if_neg haddress, if_neg haddress]
  revert hfind hmaps
  generalize e₁.sections.reverse.find? (fun x => x.maps address length) = found₁,
    e₂.sections.reverse.find? (fun x => x.maps address length) = found₂
  intro hfind hmaps
  cases hfind with
  | none => rfl
  | some hs => exact hs.read_eq (hmaps _ rfl)

/-- Images that differ in the places of their sections have the same ranges of directories. -/
lemma Rearranged.directoryOf_eq (h : Rearranged e₁ e₂) (slot : DirectorySlot) :
    e₁.directoryOf slot = e₂.directoryOf slot := by
  simp only [directoryOf, directory, dataDirectory, h.optionalHeader_eq, h.memory_eq]

/-- Images whose headers agree but for the places of the sections, and whose sections hold the same
bytes, have the same directories. -/
theorem sameDirectories_of_rearranged (h : Rearranged e₁ e₂) : SameDirectories e₁ e₂ := by
  have hmemory := h.memory_eq
  have hdirectory := h.directoryOf_eq
  have hwide : e₁.isWide = e₂.isWide := congrArg OptionalHeader.isWide h.optionalHeader_eq
  have hbase : e₁.imageBase = e₂.imageBase := congrArg OptionalHeader.imageBase h.optionalHeader_eq
  exact {
    exports := by rw [exports, hdirectory, hmemory]; rfl
    exportSymbols := fun tag => by
      rw [exportSymbols, exportDirectory, hdirectory, hmemory]; rfl
    imports := by rw [imports, hdirectory, hmemory, hwide]; rfl
    delayedImports := by rw [delayedImports, hdirectory, hmemory, hwide, hbase]; rfl
    resources := by rw [resources, hdirectory, hmemory]; rfl
    relocations := by rw [relocations, hdirectory]; rfl
    threadStorage := by rw [threadStorage, hdirectory, hmemory, hwide, hbase]; rfl
    commonRuntime := by rw [commonRuntime, hdirectory, hmemory]; rfl
    exceptions := by rw [exceptions, hdirectory, hmemory]; rfl }

/-- The sections as they lie in memory: their addresses, their sizes and what they hold. -/
def contents (e : Executable) : List (UInt32 × UInt32 × Option Bytes) :=
  e.sections.map fun s => (s.virtualAddress, s.sizeOfRawData, e.sectionData s)

/-- Images with the same optional header are rearranged when their sections are the same in memory
and their bytes are there. -/
lemma rearranged_of_contents_eq (hheader : e₁.optionalHeader = e₂.optionalHeader)
    (hcontents : e₁.contents = e₂.contents)
    (hpresent : ∀ s ∈ e₁.sections, (e₁.sectionData s).isSome) : Rearranged e₁ e₂ := by
  refine ⟨hheader, ?_⟩
  rw [contents, contents, ← List.forall₂_eq_eq_eq, List.forall₂_map_left_iff,
    List.forall₂_map_right_iff] at hcontents
  have hsections := (List.forall₂_and_left _ _).mpr ⟨hpresent, hcontents⟩
  apply hsections.imp
  intro s₁ s₂ ⟨hsome, hsame⟩
  obtain ⟨haddress, hsame⟩ := Prod.mk.inj hsame
  obtain ⟨hsize, hdata⟩ := Prod.mk.inj hsame
  obtain ⟨bs, hbs₁⟩ := Option.isSome_iff_exists.mp hsome
  have hbs₂ := hdata.symm.trans hbs₁
  have hlength := Image.length_read hbs₁
  have hend₁ := ((Image.read_eq_some_iff _ _ _ _).mp hbs₁).1
  have hend₂ := ((Image.read_eq_some_iff _ _ _ _).mp hbs₂).1
  refine ⟨⟨haddress, hsize, fun i hi => ⟨bs[i], ?_, ?_⟩⟩, fun _ => by omega⟩
  · rw [Image.getElem?_of_read hbs₁ hi, List.getElem?_eq_getElem]
  · rw [Image.getElem?_of_read hbs₂ (hsize ▸ hi), List.getElem?_eq_getElem]

/-- A section with an export directory, its tables and the name of its only function. -/
def exportSection : UInt32 × Bytes :=
  (0x1000, Build.exportBytes 0x1000 [0x1234] [0x1032] [0] ++ [65, 66, 0])

/-- The image with that section. -/
def placedImage : Image :=
  Build.image ⟨0x1000, 0x28⟩ [exportSection]

/-- The same image with other bytes before and behind the section. -/
def movedImage (before behind : Bytes) : Image :=
  .ofList <| placedImage.toList.take (Build.contentOffset 0)
    ++ ((Build.sectionTable (Build.contentOffset 1 + before.length) [exportSection]).flatMap
      SectionHeader.layout.write ++ before ++ exportSection.2 ++ behind)

/-- What is read inside the front of an image is read of every image with this front. -/
lemma clipped_front (image : Image) (rest : Bytes) {count offset length : Nat}
    (hcount : count ≤ image.size) (h : offset + length ≤ count) :
    (Image.ofList (image.toList.take count ++ rest)).clipped offset length =
      image.clipped offset length := by
  have hsize := image.length_toList
  rw [Image.clipped_eq, Image.clipped_eq, Image.toList_ofList,
    List.drop_append_of_le_length (by rw [List.length_take]; omega),
    List.take_append_of_le_length (by rw [List.length_drop, List.length_take]; omega),
    List.drop_take, List.take_take, Nat.min_eq_left (by omega)]

/-- Images with the same front have the same optional header, if the front reaches behind it. -/
lemma optionalHeader_eq_of_front {image : Image} {rest₁ rest₂ : Bytes} {count : Nat}
    (hcount : count ≤ image.size)
    (he₁ : parse (.ofList (image.toList.take count ++ rest₁)) = .ok e₁)
    (he₂ : parse (.ofList (image.toList.take count ++ rest₂)) = .ok e₂)
    (hoffset : e₁.headerOffset = e₂.headerOffset) (hcoff : e₁.coffHeader = e₂.coffHeader)
    (h : e₁.sectionTableOffset ≤ count) : e₁.optionalHeader = e₂.optionalHeader := by
  have hinside : e₁.headerOffset + Layout.u32.size + CoffHeader.layout.size
      + min e₁.coffHeader.sizeOfOptionalHeader.toNat OptionalHeader.wideLayout.size ≤ count := by
    rw [sectionTableOffset] at h
    omega
  rw [(parse_eq_ok_iff.mp he₁).optionalHeader, (parse_eq_ok_iff.mp he₂).optionalHeader,
    OptionalHeader.readFrom, OptionalHeader.readFrom, ← hoffset, ← hcoff,
    clipped_front image rest₁ hcount hinside, clipped_front image rest₂ hcount hinside]

/-- An image exports the same function when its section lies elsewhere in the file. -/
theorem sameDirectories_of_rearranged_moved : ∃ e₁ e₂,
    parse placedImage = .ok e₁ ∧ parse (movedImage [7, 7, 7] [8]) = .ok e₂ ∧
    e₁.sections ≠ e₂.sections ∧ e₁.exports = e₂.exports ∧
    e₁.exports.toOption.join.any (fun exports => exports.functions.length = 1) := by
  have hplaced : placedImage = .ofList (placedImage.toList.take (Build.contentOffset 0)
      ++ placedImage.toList.drop (Build.contentOffset 0)) := by
    rw [List.take_append_drop, Image.ofList_toList]
  obtain ⟨e₁, he₁, hoffset₁, hcoff₁, hend, hpointers₁, hcontents₁, hpresent, hexports⟩ : ∃ e,
      parse placedImage = .ok e ∧ e.headerOffset = 64 ∧
      e.coffHeader = { CoffHeader.layout.read fun _ => 0 with
        numberOfSections := 1, sizeOfOptionalHeader := 224 } ∧
      e.sectionTableOffset ≤ Build.contentOffset 0 ∧
      e.sections.map SectionHeader.pointerToRawData = [352] ∧
      e.contents = [(exportSection.1, 53, some exportSection.2)] ∧
      (∀ s ∈ e.sections, (e.sectionData s).isSome) ∧
      e.exports.toOption.join.any (fun exports => exports.functions.length = 1) :=
    Build.exists_of_any (by decide +kernel)
  obtain ⟨e₂, he₂, hoffset₂, hcoff₂, hpointers₂, hcontents₂⟩ : ∃ e,
      parse (movedImage [7, 7, 7] [8]) = .ok e ∧ e.headerOffset = 64 ∧
      e.coffHeader = { CoffHeader.layout.read fun _ => 0 with
        numberOfSections := 1, sizeOfOptionalHeader := 224 } ∧
      e.sections.map SectionHeader.pointerToRawData = [355] ∧
      e.contents = [(exportSection.1, 53, some exportSection.2)] :=
    Build.exists_of_any (by decide +kernel)
  have hheader : e₁.optionalHeader = e₂.optionalHeader :=
    optionalHeader_eq_of_front (by decide +kernel) (hplaced ▸ he₁) he₂
      (hoffset₁.trans hoffset₂.symm) (hcoff₁.trans hcoff₂.symm) hend
  -- The contents are the same, but they lie three bytes further on.
  have hdiffer : e₁.sections ≠ e₂.sections := by
    intro hsections
    rw [hsections, hpointers₂] at hpointers₁
    exact absurd hpointers₁ (by decide)
  have hsame := sameDirectories_of_rearranged
    (rearranged_of_contents_eq hheader (hcontents₁.trans hcontents₂.symm) hpresent)
  exact ⟨e₁, e₂, he₁, he₂, hdiffer, hsame.exports, hexports⟩

/-- The image with an empty section that is said to lie at a place in the file. Its export directory
is the empty range at the start of that section. -/
def emptySectionImage (pointer : UInt32) : Image :=
  .ofList <| (Build.image ⟨0x1000, 0⟩ [(0x1000, [])]).toList.take (Build.contentOffset 0)
    ++ SectionHeader.layout.write { SectionHeader.layout.read fun _ => 0 with
      virtualAddress := 0x1000
      pointerToRawData := pointer }

/-- Sections with the same contents are not enough when they are empty: of an empty section that
lies behind the end of the file not even the empty range can be read, so the export directory of the
one image is malformed and the other one has none. -/
theorem exists_not_sameDirectories : ∃ e₁ e₂,
    parse (emptySectionImage 0) = .ok e₁ ∧ parse (emptySectionImage 0xFFFFFFFF) = .ok e₂ ∧
    e₁.dosHeader = e₂.dosHeader ∧ e₁.headerOffset = e₂.headerOffset ∧
    e₁.coffHeader = e₂.coffHeader ∧ e₁.optionalHeader = e₂.optionalHeader ∧
    e₁.sections.map (fun s => { s with pointerToRawData := 0 }) =
      e₂.sections.map (fun s => { s with pointerToRawData := 0 }) ∧
    List.Forall₂ (SameContents e₁ e₂) e₁.sections e₂.sections ∧
    ¬ SameDirectories e₁ e₂ := by
  -- The images differ in the pointer of a section without contents, of which nothing is asked.
  let dosHeader : DosHeader := { paragraphs := 0, relocationTable := 0, newHeader := 64 }
  let coffHeader : CoffHeader := { CoffHeader.layout.read fun _ => 0 with
    numberOfSections := 1, sizeOfOptionalHeader := 224 }
  let header (pointer : UInt32) : SectionHeader := { SectionHeader.layout.read fun _ => 0 with
    virtualAddress := 0x1000, pointerToRawData := pointer }
  obtain ⟨e₁, he₁, hdos₁, hoffset₁, hcoff₁, hend, hsections₁, hexports₁⟩ : ∃ e,
      parse (emptySectionImage 0) = .ok e ∧ e.dosHeader = dosHeader ∧ e.headerOffset = 64 ∧
      e.coffHeader = coffHeader ∧ e.sectionTableOffset ≤ Build.contentOffset 0 ∧
      e.sections = [header 0] ∧ e.exports.toOption = none :=
    Build.exists_of_any (by decide +kernel)
  obtain ⟨e₂, he₂, hdos₂, hoffset₂, hcoff₂, hsections₂, hexports₂⟩ : ∃ e,
      parse (emptySectionImage 0xFFFFFFFF) = .ok e ∧ e.dosHeader = dosHeader ∧
      e.headerOffset = 64 ∧ e.coffHeader = coffHeader ∧
      e.sections = [header 0xFFFFFFFF] ∧ e.exports.toOption.isSome :=
    Build.exists_of_any (by decide +kernel)
  have hheader : e₁.optionalHeader = e₂.optionalHeader :=
    optionalHeader_eq_of_front (by decide +kernel) he₁ he₂
      (hoffset₁.trans hoffset₂.symm) (hcoff₁.trans hcoff₂.symm) hend
  have hsections : List.Forall₂ (SameContents e₁ e₂) e₁.sections e₂.sections := by
    rw [hsections₁, hsections₂]
    exact .cons ⟨rfl, rfl, fun i hi => absurd hi (Nat.not_lt_zero i)⟩ .nil
  refine ⟨e₁, e₂, he₁, he₂, hdos₁.trans hdos₂.symm, hoffset₁.trans hoffset₂.symm,
    hcoff₁.trans hcoff₂.symm, hheader, by rw [hsections₁, hsections₂]; rfl, hsections, ?_⟩
  -- The exports are an error in the first image and a result in the second.
  intro hsame
  rw [hsame.exports] at hexports₁
  rw [hexports₁] at hexports₂
  cases hexports₂

end PeCoff.Executable
