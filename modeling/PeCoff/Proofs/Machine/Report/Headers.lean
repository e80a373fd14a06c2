import Mathlib
import PeCoff.Proofs.Machine.Headers
import PeCoff.Proofs.Machine.Text
import PeCoff.Report.Headers

/-!
# Headers in a report of a machine

The COFF header, the optional header with the titles of its slots, and the section table with the
labels of each section and a dump of its data. The main statements are `printFileHeader_eq`,
`printOptionalHeader_eq` and `printSectionTable_eq`.
-/

namespace PeCoff.Machine

open Report Text

/-! ## File header and optional header -/

/-- The COFF header and the file offset of its time stamp. -/
def printFileHeader (e : Executable) : Step String := do
  return fileHeaderAt e.coffHeader (← add 64 e.headerOffset 8)

/-- The file header is printed without a fault. -/
lemma printFileHeader_eq {e : Executable} (h : e.headerOffset < 2 ^ 31) :
    printFileHeader e = .ok (fileHeader e) := by
  rw [printFileHeader, add_eq (by omega)]
  rfl

/-- The title of the slot at a place. -/
def slotTitle (place : Nat) : Step String := do
  if place < slotCount then
    let slot ← index DirectorySlot.all place
    index (DirectorySlot.all.map DirectorySlot.title) slot.index
  else
    return ""

/-- The optional header with the titles of its slots. -/
def printOptionalHeader (h : OptionalHeader) : Step String := do
  let titles ← (List.range slotCount).mapM slotTitle
  return optionalHeaderWith titles h

/-- Every directory has a title. -/
lemma mapM_slotTitle_eq :
    (List.range slotCount).mapM slotTitle = .ok (DirectorySlot.all.map DirectorySlot.title) := by
  decide

/-- The optional header is printed without a fault. -/
lemma printOptionalHeader_eq (h : OptionalHeader) :
    printOptionalHeader h = .ok (Report.optionalHeader h) := by
  rw [printOptionalHeader, mapM_slotTitle_eq]
  rfl

/-! ## Section table -/

/-- The alignment that four bits of the characteristics encode as an exponent. -/
def alignment (characteristics : UInt32) : Step (Option Nat) := do
  let code := characteristics.toNat / 0x100000 % 16
  if 1 ≤ code ∧ code ≤ 14 then
    return some (← shiftLeft 32 1 (← sub code 1))
  else
    return none

/-- The labels of the characteristics of a section. -/
def sectionLabels (characteristics : UInt32) : Step (List String) := do
  let alignment ← alignment characteristics
  return setLabels SectionHeader.contentLabels characteristics
    ++ alignment.toList.map (fun n => s!"ALIGN_{n}BYTES")
    ++ setLabels SectionHeader.memoryLabels characteristics

/-- A section header and, when they are asked for, the data of its section. -/
def printSection (rawData : Bool) (s : SectionHeader) (name : SectionName)
    (data : Option Bytes) : Step String := do
  let labels ← sectionLabels s.characteristics
  let dump ← if rawData then pure ((← hexDump "    " data) ++ line "") else pure ""
  return sectionHeaderWith labels s name ++ dump

/-- A section table. -/
def printSectionTable (sections : List SectionHeader) (name : SectionHeader → Step SectionName)
    (data : SectionHeader → Option Bytes) (rawData : Bool) : Step String := do
  let rows ← sections.mapM fun s => do printSection rawData s (← name s) (data s)
  return line "Section Table" ++ String.join rows

/-- The alignment of a section is shifted by less than the width of its number. -/
lemma alignment_eq (characteristics : UInt32) :
    alignment characteristics = .ok (SectionHeader.alignmentOf characteristics) := by
  rw [alignment, SectionHeader.alignmentOf]
  generalize characteristics.toNat / 0x100000 % 16 = code
  by_cases hcode : 1 ≤ code ∧ code ≤ 14
  · have hpower : 2 ^ (code - 1) < 2 ^ 32 := Nat.pow_lt_pow_right (by decide) (by omega)
    rw [if_pos hcode, if_pos hcode, sub_eq hcode.1]
    simp only [ok_bind]
    rw [shiftLeft_eq (by omega), Nat.one_mul, Nat.mod_eq_of_lt hpower, Nat.one_shiftLeft]
    rfl
  · rw [if_neg hcode, if_neg hcode]
    rfl

/-- The labels of a section are found without a fault. -/
lemma sectionLabels_eq (characteristics : UInt32) :
    sectionLabels characteristics = .ok (SectionHeader.labelsOf characteristics) := by
  rw [sectionLabels, alignment_eq]
  rfl

/-- A section header is printed without a fault, with its bytes or without them. -/
lemma printSection_eq (rawData : Bool) (s : SectionHeader) (name : SectionName)
    {data : Option Bytes} (h : ∀ bs, data = some bs → bs.length < 2 ^ 64) :
    printSection rawData s name data = .ok (sectionHeader s name ++
      if rawData then HexDump.render "    " data ++ line "" else "") := by
  rw [printSection, sectionLabels_eq, hexDump_eq _ h]
  cases rawData <;> rfl

/-- The section table is printed without a fault when the names are found without one. -/
theorem printSectionTable_eq (sections : List SectionHeader)
    {name : SectionHeader → Step SectionName} {name' : SectionHeader → SectionName}
    {data : SectionHeader → Option Bytes} (hname : ∀ s, name s = .ok (name' s))
    (hdata : ∀ s bs, data s = some bs → bs.length < 2 ^ 64) (rawData : Bool) :
    printSectionTable sections name data rawData =
      .ok (Report.sectionTable sections name' data rawData) := by
  have hrow : ∀ s ∈ sections, (do printSection rawData s (← name s) (data s)) =
      .ok (sectionHeader s (name' s) ++
        if rawData then HexDump.render "    " (data s) ++ line "" else "") := by
    intro s _
    rw [hname]
    exact printSection_eq rawData s (name' s) (hdata s)
  rw [printSectionTable, mapM_eq hrow]
  rfl

end PeCoff.Machine
