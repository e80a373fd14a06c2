import Mathlib
import PeCoff.Proofs.Build
import PeCoff.Proofs.Headers
import PeCoff.Proofs.Machine.Headers

/-!
# Files that are cut off

What is decoded of the front of a file is what the front still holds. The main statement is
`Executable.headers_of_isPrefix`: an image that is cut off behind its COFF header keeps the headers
before the cut, the section headers that are still whole, and the optional header with zeros in the
place of the bytes that are gone.
-/

namespace PeCoff

/-- Zeros at the end of a string are in its zero extension anyway. -/
lemma Bytes.zeroExtended_append_replicate (bs : Bytes) (n : Nat) :
    zeroExtended (bs ++ List.replicate n 0) = bs.zeroExtended := by
  funext i
  rcases Nat.lt_or_ge i bs.length with hlt | hle
  · rw [zeroExtended_of_lt _ _ (by rw [List.length_append]; omega), zeroExtended_of_lt _ _ hlt,
      List.getElem_append_left]
  · rw [zeroExtended_of_length_le bs i hle, zeroExtended, List.getD_eq_getElem?_getD,
      List.getElem?_append_right hle, List.getElem?_replicate]
    split <;> rfl

namespace Image

variable {α : Type} {image front : Image} {l : Layout α} {offset n : Nat} {a : α} {bs : Bytes}

/-- The file with zeros in the place of its bytes from an offset on. -/
def zeroedFrom (image : Image) (offset : Nat) : Image :=
  .ofList (image.toList.take offset ++ List.replicate (image.size - offset) 0)

/-- A range of the front of a file reads as it does in the file. -/
lemma read_of_isPrefix (hfront : front.toList <+: image.toList) (hle : offset + n ≤ front.size) :
    image.read offset n = front.read offset n := by
  obtain ⟨rest, hrest⟩ := hfront
  have hlength := congrArg List.length hrest
  rw [List.length_append, length_toList, length_toList] at hlength
  rw [(image.read_eq_some_iff offset n _).mpr ⟨by omega, rfl⟩,
    (front.read_eq_some_iff offset n _).mpr ⟨hle, rfl⟩, ← hrest,
    List.drop_append_of_le_length (by rw [length_toList]; omega),
    List.take_append_of_le_length (by rw [List.length_drop, length_toList]; omega)]

/-- A record that lies within the front of a file is that of the file. -/
lemma record?_of_isPrefix (hfront : front.toList <+: image.toList)
    (hle : offset + l.size ≤ front.size) :
    image.record? l offset = front.record? l offset := by
  rw [record?, record?, read_of_isPrefix hfront hle]

/-- The front of a file has the bytes of the file up to its own end, and zeros from there on. -/
lemma zeroExtended_zeroedFrom (hfront : front.toList <+: image.toList) :
    (image.zeroedFrom front.size).toList.zeroExtended = front.toList.zeroExtended := by
  have hbytes : (image.zeroedFrom front.size).toList =
      front.toList ++ List.replicate (image.size - front.size) 0 := by
    conv_rhs => rw [List.prefix_iff_eq_take.mp hfront, length_toList]
    rfl
  rw [hbytes, Bytes.zeroExtended_append_replicate]

/-- The zeros behind a range and those behind a file are filled in alike. -/
lemma zeroFilled_eq (image : Image) (offset size i : Nat) : image.zeroFilled offset size i =
    if i < size then image.toList.zeroExtended (offset + i) else 0 := by
  rw [zeroFilled]
  rcases Nat.lt_or_ge (offset + i) image.size with hlt | hle
  · rw [Bytes.zeroExtended_of_lt _ _ (by rwa [length_toList])]
    simp only [hlt, and_true]
    rfl
  · rw [dif_neg fun h => absurd h.2 (Nat.not_lt.mpr hle),
      Bytes.zeroExtended_of_length_le _ _ (by rwa [length_toList]), ite_self]

end Image

variable {image front : Image} {offset count : Nat}

/-- The optional header depends on the bytes of a file as far as zeros make up for the others. -/
lemma OptionalHeader.readFrom_congr {declaredSize : UInt16}
    (h : image.toList.zeroExtended = front.toList.zeroExtended) :
    readFrom image offset declaredSize = readFrom front offset declaredSize := by
  have hfilled : image.zeroFilled offset declaredSize.toNat =
      front.zeroFilled offset declaredSize.toNat := by
    funext i
    rw [Image.zeroFilled_eq, Image.zeroFilled_eq, h]
  rw [readFrom_eq, readFrom_eq, hfilled]

/-- The section table of the front of a file is a front of the section table. -/
lemma SectionHeader.readTable_of_isPrefix (hfront : front.toList <+: image.toList) :
    readTable front offset count <+: readTable image offset count := by
  induction count generalizing offset with
  | zero => exact List.prefix_rfl
  | succ count ih =>
    rw [readTable]
    cases hrecord : front.record? layout offset with
    | none => exact List.nil_prefix
    | some s =>
      have hle := (Image.record?_eq_some_iff.mp hrecord).1
      rw [readTable, Image.record?_of_isPrefix hfront hle, hrecord]
      exact List.cons_prefix_cons.mpr ⟨rfl, ih⟩

namespace Executable

variable {e : Executable}

/-- What an executable has left of its headers when its file is cut off behind the COFF header. -/
def cutTo (e : Executable) (front : Image) : Executable :=
  { e with
    image := front
    optionalHeader := .readFrom front (e.headerOffset + Layout.u32.size + CoffHeader.layout.size)
      e.coffHeader.sizeOfOptionalHeader
    sections :=
      SectionHeader.readTable front e.sectionTableOffset e.coffHeader.numberOfSections.toNat }

/-- The headers up to the COFF header are decoded from the front as from the whole file. -/
lemma parse_of_isPrefix (h : parse image = .ok e) (hfront : front.toList <+: image.toList)
    (hdos : 64 ≤ front.size) (hcoff : e.headerOffset + 24 ≤ front.size) :
    parse front = .ok (e.cutTo front) := by
  have hu32 : Layout.u32.size = 4 := rfl
  have hsize : CoffHeader.layout.size = 20 := rfl
  have hdecoded := parse_eq_ok_iff.mp h
  refine parse_eq_ok_iff.mpr
    ⟨rfl, ?_, hdecoded.headerOffset, ?_, ?_, by simp only [cutTo], by simp only [cutTo]; rfl⟩
  · have hread : image.read 0 DosHeader.size = front.read 0 DosHeader.size :=
      Image.read_of_isPrefix hfront hdos
    rw [DosHeader.readFrom, Image.readExact, ← hread]
    have hheader := hdecoded.dosHeader
    rw [DosHeader.readFrom, Image.readExact] at hheader
    cases hbytes : image.read 0 DosHeader.size with
    | none =>
      rw [hbytes] at hheader
      cases hheader
    | some bs =>
      rw [hbytes] at hheader
      exact hheader
  · exact (Image.record?_of_isPrefix hfront
      (show e.headerOffset + Layout.u32.size ≤ front.size by omega)).symm.trans hdecoded.signature
  · exact (Image.record?_of_isPrefix hfront
      (show e.headerOffset + Layout.u32.size + CoffHeader.layout.size ≤ front.size by
        omega)).symm.trans hdecoded.coffHeader

/-- An image that is cut off, but not before the end of its DOS header or of its COFF header, is
still decoded. The DOS header and the COFF header stay. Of the section headers those stay that are
still whole, and none when their table starts behind the cut; each is decoded at its own offset. The
optional header is that of the file with zeros from the cut on. No offset of a section header
exceeds a word, in any file that fits into one. -/
theorem headers_of_isPrefix (h : parse image = .ok e) (hfront : front.toList <+: image.toList)
    (hsize : max 64 (e.headerOffset + 24) ≤ front.size) :
    (∃ e', parse front = .ok e' ∧
      e'.dosHeader = e.dosHeader ∧ e'.headerOffset = e.headerOffset ∧
      e'.coffHeader = e.coffHeader ∧
      e'.sections <+: e.sections ∧
      e'.sections.length = min e.coffHeader.numberOfSections.toNat
        ((front.size - e.sectionTableOffset) / 40) ∧
      (∀ k s, e'.sections[k]? = some s →
        front.record? SectionHeader.layout (e.sectionTableOffset + 40 * k) = some s) ∧
      e'.optionalHeader = .readFrom (image.zeroedFrom front.size) (e.headerOffset + 24)
        e.coffHeader.sizeOfOptionalHeader) ∧
    ∀ (file : Image) (offset count : Nat), Machine.Fits file → offset < 2 ^ 64 →
      Machine.sectionHeaders file offset count 0 =
        .ok (SectionHeader.readTable file offset count) := by
  obtain ⟨hdos, hcoff⟩ := max_le_iff.mp hsize
  have hrow : SectionHeader.layout.size = 40 := by decide
  have hplace : e.headerOffset + Layout.u32.size + CoffHeader.layout.size = e.headerOffset + 24 :=
    rfl
  -- The cut file is decoded to `e.cutTo front`, of which each part is then looked at.
  refine ⟨⟨e.cutTo front, parse_of_isPrefix h hfront hdos hcoff, rfl, rfl, rfl, ?_, ?_, ?_, ?_⟩, ?_⟩
  · rw [(parse_eq_ok_iff.mp h).sections]
    exact SectionHeader.readTable_of_isPrefix hfront
  · rw [← hrow]
    exact SectionHeader.length_readTable
  · intro k s hs
    rw [← hrow]
    exact SectionHeader.record?_of_getElem?_readTable hs
  · rw [OptionalHeader.readFrom_congr (Image.zeroExtended_zeroedFrom hfront), ← hplace]
    simp only [cutTo]
  · intro file offset count hfits hoffset
    rw [Machine.sectionHeaders_eq hfits (by rwa [Nat.zero_mul]), Nat.zero_mul, Nat.add_zero]

/-- An image with two sections. -/
def twoSections : Image :=
  Build.image ⟨0, 0⟩ [(0x1000, [1, 2, 3]), (0x2000, [4, 5])]

/-- The first bytes of that image. -/
def cutSections (size : Nat) : Image :=
  .ofList (twoSections.toList.take size)

/-- One section header is left when the last byte of the other one is cut off, and none is when the
cut goes through the optional header. -/
theorem headers_of_isPrefix_cut : ∃ e e₁ e₂, parse twoSections = .ok e ∧
    parse (cutSections 391) = .ok e₁ ∧ parse (cutSections 188) = .ok e₂ ∧
    e.sections.length = 2 ∧
    e₁.sections <+: e.sections ∧ e₁.sections.length = 1 ∧ e₂.sections.length = 0 ∧
    e₂.coffHeader = e.coffHeader ∧
    e₂.optionalHeader = .readFrom (twoSections.zeroedFrom 188) 88 224 ∧
    Machine.sectionHeaders (cutSections 391) (2 ^ 64 - 1) 65535 0 = .ok [] := by
  obtain ⟨e, he, hoffset, htable, hcount, hoptional, hlength⟩ : ∃ e, parse twoSections = .ok e ∧
      e.headerOffset = 64 ∧ e.sectionTableOffset = 312 ∧
      e.coffHeader.numberOfSections = 2 ∧ e.coffHeader.sizeOfOptionalHeader = 224 ∧
      e.sections.length = 2 := Build.exists_of_any (by decide +kernel)
  have hsize₁ : (cutSections 391).size = 391 := by decide +kernel
  have hsize₂ : (cutSections 188).size = 188 := by decide +kernel
  have hcut (n : Nat) : (cutSections n).toList <+: twoSections.toList := List.take_prefix n _
  obtain ⟨⟨e₁, he₁, -, -, -, hsections, hone, -⟩, hplaces⟩ :=
    headers_of_isPrefix he (hcut 391) (by rw [hoffset, hsize₁]; decide)
  obtain ⟨⟨e₂, he₂, -, -, hcoff, -, hnone, -, hzeroed⟩, -⟩ :=
    headers_of_isPrefix he (hcut 188) (by rw [hoffset, hsize₂]; decide)
  rw [hcount, hsize₁, htable] at hone
  rw [hcount, hsize₂, htable] at hnone
  rw [hoptional, hsize₂, hoffset] at hzeroed
  have hplace := hplaces (cutSections 391) (2 ^ 64 - 1) 65535
    (by rw [Machine.Fits, hsize₁]; decide) (by decide)
  -- No row of the table fits behind the last offset of 64 bits.
  have htop : SectionHeader.readTable (cutSections 391) (2 ^ 64 - 1) 65535 = [] := by
    rw [← List.length_eq_zero_iff, SectionHeader.length_readTable, hsize₁]
    decide
  exact ⟨e, e₁, e₂, he, he₁, he₂, hlength, hsections, hone, hnone, hcoff, hzeroed,
    hplace.trans (congrArg _ htop)⟩

end Executable

end PeCoff
