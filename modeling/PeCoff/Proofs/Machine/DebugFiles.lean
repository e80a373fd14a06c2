import Mathlib
import PeCoff.DebugFile
import PeCoff.Proofs.Machine.Headers

/-!
# Debug information on a machine

The debug directory, whose pieces lie at file offsets, and the split debug files that hold nothing
else. The main statements are `debugEntries_eq` and `parseDebugFile_eq`.
-/

namespace PeCoff.Machine

open DebugInfo

variable {image : Image}

/-! ## The debug directory -/

/-- The text attached to an image, and the fields before it. -/
def miscRecord (bs : Bytes) : Step (Option Misc) := do
  if bs.length < Misc.headerSize then return none
  let unicode := (← index bs 8) != 0
  let rest ← slice bs Misc.headerSize bs.length
  let text ←
    if unicode then (units rest).map fun found => Text.ofUtf16 (found.takeWhile (· != 0))
    else (cut rest).map Text.ofUtf8
  let dataType ← fetch .u32 bs 0
  let length ← fetch .u32 bs 4
  return some { dataType, length, unicode, text }

/-- The piece of debug information that an entry describes. -/
def debugPayload (image : Image) (directory : DebugInfo.Directory) : Step Payload := do
  let raw := readFile image directory.pointerToRawData.toNat directory.sizeOfData.toNat
  match directory.debugType.toNat with
  | 1 => return .coff raw
  | 2 => return .codeView raw
  | 3 => return .framePointers raw
  | 4 =>
    match ← andThen raw miscRecord with
    | some misc => return .misc misc
    | none => return .miscUnavailable
  | _ => return .none

/-- The entries of a debug directory. -/
def debugTable (image : Image) (table : Bytes) : Step (List Entry) := do
  let directories ← records DebugInfo.Directory.layout table
  directories.mapM fun directory => return ⟨directory, ← debugPayload image directory⟩

/-- A miscellaneous record is decoded without a fault, although its length is taken from its own
bytes. -/
lemma miscRecord_eq {bs : Bytes} (hbs : bs.length < 2 ^ 64) :
    miscRecord bs = .ok (Misc.decode bs).toOption := by
  have hheader : Misc.headerSize = 12 := rfl
  have hu32 : Layout.u32.size = 4 := rfl
  rw [miscRecord, Misc.decode]
  by_cases hshort : bs.length < Misc.headerSize
  · rw [if_pos hshort, if_pos hshort]
    rfl
  · rw [if_neg hshort, if_neg hshort, index_eq (by omega), slice_eq (by omega) (Nat.le_refl _),
      List.take_length, fetch_eq hbs (by omega), fetch_eq hbs (by omega), List.drop_zero,
      zeroExtended_drop bs 4]
    simp only [ok_bind, units_eq, cut_eq, Bytes.zeroExtended_of_lt bs 8 (by omega), Except.map]
    split <;> rfl

/-- What a debug entry points at is decoded without a fault. -/
lemma debugPayload_eq (h : Fits image) (directory : DebugInfo.Directory) :
    debugPayload image directory = .ok (Entry.payloadOf image.read directory) := by
  have hsize := directory.sizeOfData.toNat_lt
  rw [debugPayload, Entry.payloadOf, readFile_eq h]
  have hmisc : andThen
      (image.read directory.pointerToRawData.toNat directory.sizeOfData.toNat) miscRecord =
      .ok ((image.read directory.pointerToRawData.toNat directory.sizeOfData.toNat).bind
        fun bs => (Misc.decode bs).toOption) := by
    refine andThen_eq fun bs hbs => miscRecord_eq ?_
    rw [Image.length_read hbs]
    omega
  simp only [hmisc, ok_bind]
  rcases directory.debugType.toNat with _ | _ | _ | _ | _ | type
  · rfl
  · rfl
  · rfl
  · rfl
  · cases (image.read directory.pointerToRawData.toNat directory.sizeOfData.toNat).bind
      fun bs => (Misc.decode bs).toOption <;> rfl
  · rfl

/-- The entries of a debug directory are decoded without a fault. -/
lemma debugTable_eq (h : Fits image) (table : Bytes) :
    debugTable image table = .ok (Entry.decodeAll image.read table) := by
  rw [debugTable, records_eq (by decide) (by decide), Entry.decodeAll]
  simp only [ok_bind]
  apply mapM_eq
  intro directory _
  simp [debugPayload_eq h]

/-- The entries of the debug directory of an image. -/
def debugEntries (e : Executable) : Step (Option (List Entry)) := do
  match ← directory e DirectorySlot.debug.index with
  | none => return none
  | some (_, bytes) => return some (← debugTable e.image bytes)

/-- The debug directory of an executable is decoded without a fault. -/
theorem debugEntries_eq {e : Executable} (h : Fits e.image) :
    debugEntries e = .ok e.debugEntries := by
  rw [debugEntries, directory_eq h, Executable.debugEntries]
  cases e.directoryOf .debug with
  | none => rfl
  | some found => simp [debugTable_eq h]

/-! ## Split debug files -/

/-- The header of a split debug file at the front of a byte string. -/
def debugHeader (bs : Bytes) : Step (Except DecodeError DebugHeader) := do
  if bs.length < DebugHeader.size then return .error (.tooShort DebugHeader.size bs.length)
  let signature ← fetch .u16 bs 0
  if signature ≠ FileKind.debugSignature then return .error .debugSignature
  return .ok (← fetch DebugHeader.fields bs 2)

/-- The section table that a header declares. -/
def sectionTable (image : Image) (header : DebugHeader) : Step (Option (List SectionHeader)) :=
  andThen ((checkedMul 64 header.numberOfSections.toNat SectionHeader.layout.size).bind
      (readFile image DebugHeader.size)) fun table => do
    return some (← records SectionHeader.layout table)

/-- The debug directory that a header declares. -/
def debugDirectory (image : Image) (header : DebugHeader) : Step (Option (List Entry)) := do
  let length ← mul 64 (header.debugDirectorySize.toNat / 28) 28
  let names ← mul 64 header.numberOfSections.toNat SectionHeader.layout.size
  let offset ← add 64 (← add 64 DebugHeader.size names) header.exportedNamesSize.toNat
  andThen (readFile image offset length) fun table => do
    return some (← debugTable image table)

/-- The split debug file that a file holds. -/
def parseDebugFile (image : Image) : Step (Except DecodeError DebugFile) := do
  match readExact image 0 DebugHeader.size with
  | .error error => return .error error
  | .ok bs =>
    match ← debugHeader bs with
    | .error error => return .error error
    | .ok header =>
      let sections ← sectionTable image header
      let debugEntries ← andThen sections fun _ => debugDirectory image header
      return .ok { image, header, sections, debugEntries }

/-- The header of a debug file is decoded without a fault. -/
lemma debugHeader_eq {bs : Bytes} (hbs : bs.length < 2 ^ 64) :
    debugHeader bs = .ok (DebugHeader.decode bs) := by
  have hsize : DebugHeader.size = 48 := rfl
  have hfields : DebugHeader.fields.size = 38 := rfl
  have hu16 : Layout.u16.size = 2 := rfl
  rw [debugHeader, DebugHeader.decode]
  by_cases hshort : bs.length < DebugHeader.size
  · rw [if_pos hshort, if_pos hshort]
    rfl
  · rw [if_neg hshort, if_neg hshort, fetch_eq hbs (by omega), fetch_eq hbs (by omega),
      List.drop_zero, zeroExtended_drop]
    simp only [ok_bind]
    by_cases hsignature : Layout.u16.read bs.zeroExtended = FileKind.debugSignature
    · rw [if_neg (not_not.mpr hsignature), if_neg (not_not.mpr hsignature)]
      rfl
    · rw [if_pos hsignature, if_pos hsignature]
      rfl

/-- The sections of a debug file are decoded without a fault. -/
lemma sectionTable_eq (h : Fits image) (header : DebugHeader) :
    sectionTable image header = .ok (DebugFile.sectionTable image header) := by
  have hcount := header.numberOfSections.toNat_lt
  have hsize : SectionHeader.layout.size = 40 := by decide
  rw [sectionTable, DebugFile.sectionTable, hsize, checkedMul_eq (by omega), Option.bind_some,
    readFile_eq h]
  cases image.read DebugHeader.size (header.numberOfSections.toNat * 40) with
  | none => rfl
  | some table =>
    simp only [andThen, records_eq (l := SectionHeader.layout) (by decide) (by decide)]
    rfl

/-- The debug directory of a debug file is found behind its exported names without a fault. -/
lemma debugDirectory_eq (h : Fits image) (header : DebugHeader) :
    debugDirectory image header = .ok (DebugFile.debugDirectory image header) := by
  have hcount := header.numberOfSections.toNat_lt
  have hnames := header.exportedNamesSize.toNat_lt
  have hdirectory := header.debugDirectorySize.toNat_lt
  have hsize : SectionHeader.layout.size = 40 := by decide
  have hheader : DebugHeader.size = 48 := rfl
  rw [debugDirectory, DebugFile.debugDirectory, DebugHeader.debugDirectoryOffset,
    DebugHeader.debugEntryCount, show DebugInfo.Directory.layout.size = 28 from rfl, hsize,
    mul_eq (by omega), mul_eq (by omega)]
  simp only [ok_bind]
  rw [add_eq (by omega)]
  simp only [ok_bind]
  rw [add_eq (by omega)]
  simp only [ok_bind]
  rw [readFile_eq h]
  cases image.read _ (header.debugDirectorySize.toNat / 28 * 28) with
  | none => rfl
  | some table =>
    simp only [andThen, debugTable_eq h]
    rfl

/-- A debug file is decoded without a fault. -/
theorem parseDebugFile_eq (h : Fits image) :
    parseDebugFile image = .ok (DebugFile.parse image) := by
  rw [parseDebugFile, readExact_eq h, DebugFile.parse]
  cases hread : image.readExact 0 DebugHeader.size with
  | error error => rfl
  | ok bs =>
    have hlength : bs.length = 48 := by
      rw [Image.readExact] at hread
      split at hread
      · rename_i found hfound
        cases hread
        exact Image.length_read hfound
      · cases hread
    have hheader : debugHeader bs = .ok (DebugHeader.decode bs) := debugHeader_eq (by omega)
    simp only [bind, Except.bind, hheader]
    cases DebugHeader.decode bs with
    | error error => rfl
    | ok header =>
      have hentries : (andThen (DebugFile.sectionTable image header) fun _ =>
          debugDirectory image header) =
          .ok ((DebugFile.sectionTable image header).bind fun _ =>
            DebugFile.debugDirectory image header) :=
        andThen_eq fun _ _ => debugDirectory_eq h header
      simp only [sectionTable_eq h, hentries]
      rfl

end PeCoff.Machine
