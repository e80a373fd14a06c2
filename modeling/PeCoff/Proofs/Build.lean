import PeCoff.Executable

/-!
# Building images

The smallest image with given sections and a given place of its export directory. The sections lie
in the file one after the other, behind the section table, and each is as large in memory as in the
file. Statements about images are evaluated on images that are built here.
-/

namespace PeCoff.Build

/-- The file offset of the new header. -/
def headerOffset : Nat := DosHeader.size

/-- The file offset of the bytes of the first of `count` sections. -/
def contentOffset (count : Nat) : Nat :=
  headerOffset + Layout.u32.size + CoffHeader.layout.size + OptionalHeader.narrowLayout.size
    + count * SectionHeader.layout.size

/-- The headers of sections that lie in the file one after the other. -/
def sectionTable : (offset : Nat) → List (UInt32 × Bytes) → List SectionHeader
  | _, [] => []
  | offset, (address, content) :: rest =>
    { SectionHeader.layout.read fun _ => 0 with
      virtualAddress := address
      virtualSize := UInt32.ofNat content.length
      sizeOfRawData := UInt32.ofNat content.length
      pointerToRawData := UInt32.ofNat offset } :: sectionTable (offset + content.length) rest

/-- The optional header of an image with an export directory at a place. -/
def optionalHeader (exports : DataDirectory) : OptionalFields UInt32 UInt32 :=
  { OptionalHeader.narrowLayout.read fun _ => 0 with
    magic := OptionalHeader.narrowMagic
    declaredSlots := UInt32.ofNat slotCount
    slots := (Vector.replicate slotCount ⟨0, 0⟩).set 0 exports }

/-- The image with given sections, each with its address and its bytes. -/
def image (exports : DataDirectory) (sections : List (UInt32 × Bytes)) : Image :=
  let dosHeader : Bytes :=
    Layout.u16.write DosHeader.signature ++ List.replicate 58 0
      ++ Layout.u32.write (UInt32.ofNat headerOffset)
  let coffHeader := { CoffHeader.layout.read fun _ => 0 with
    numberOfSections := UInt16.ofNat sections.length
    sizeOfOptionalHeader := UInt16.ofNat OptionalHeader.narrowLayout.size }
  .ofList <| dosHeader ++ [80, 69, 0, 0]
    ++ CoffHeader.layout.write coffHeader
    ++ OptionalHeader.narrowLayout.write (optionalHeader exports)
    ++ (sectionTable (contentOffset sections.length) sections).flatMap SectionHeader.layout.write
    ++ sections.flatMap Prod.snd

/-- An export directory at an address whose tables lie behind it: the addresses of the functions,
those of the names and the indices. The first ordinal is one. -/
def exportDirectory (address : UInt32) (functions names : List UInt32) : Export.Directory :=
  let tables := address + UInt32.ofNat Export.Directory.layout.size
  let nameTable := tables + 4 * UInt32.ofNat functions.length
  { Export.Directory.layout.read fun _ => 0 with
    base := 1
    numberOfFunctions := UInt32.ofNat functions.length
    numberOfNames := UInt32.ofNat names.length
    addressOfFunctions := tables
    addressOfNames := nameTable
    addressOfNameOrdinals := nameTable + 4 * UInt32.ofNat names.length }

/-- The bytes of an export directory at an address and of its tables. -/
def exportBytes (address : UInt32) (functions names : List UInt32) (ordinals : List UInt16) :
    Bytes :=
  Export.Directory.layout.write (exportDirectory address functions names)
    ++ functions.flatMap Layout.u32.write ++ names.flatMap Layout.u32.write
    ++ ordinals.flatMap Layout.u16.write

/-- A decidable statement about what is decoded is shown by decoding it. -/
theorem exists_of_any {ε α : Type} {decoded : Except ε α} {p : α → Prop} [DecidablePred p]
    (h : decoded.toOption.any p) : ∃ a, decoded = .ok a ∧ p a := by
  cases decoded with
  | error error => cases h
  | ok a => exact ⟨a, rfl, of_decide_eq_true h⟩

end PeCoff.Build
