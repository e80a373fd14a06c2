import Mathlib
import PeCoff.Proofs.Machine.Report.Directories
import PeCoff.Proofs.Machine.Report.Headers
import PeCoff.Proofs.Machine.Report.Resources
import PeCoff.Proofs.Parsing
import PeCoff.Report.Document

/-!
# Reports of a machine

The report of an image or of a split debug file, whatever it is asked to show. The main statements
are `printExecutable_eq` and `printDebugFile_eq`.
-/

namespace PeCoff.Machine

open Report Text DebugInfo

variable {e : Executable}

/-! ## Symbols -/

/-- The bytes of the string table, cut off at its declared size or at the end of the file. -/
def stringBytes (e : Executable) : Step (Option Bytes) := do
  match ← stringTableOffset e.coffHeader with
  | none => return none
  | some offset =>
    match ← fileRecord? e.image .u32 offset with
    | none => return none
    | some declared => return readFile e.image offset (min declared.toNat (e.image.size - offset))

/-- The symbol table, when the file holds all of it. -/
def printSymbols (e : Executable) : Step String := do
  let h := e.coffHeader
  if h.pointerToSymbolTable = 0 ∨ h.numberOfSymbols = 0 then return ""
  let length := (checkedMul 64 h.numberOfSymbols.toNat Symbol.layout.size).getD (2 ^ 64 - 1)
  match readFile e.image h.pointerToSymbolTable.toNat length with
  | none => return ""
  | some records => symbolTable records h.numberOfSymbols (← stringBytes e) e.sections

/-- The string table is read as far as the file goes, without a fault. -/
lemma stringBytes_eq (h : Fits e.image) :
    stringBytes e = .ok (do
      let offset ← e.stringTableOffset
      let declared ← e.image.record? .u32 offset
      return e.image.clipped offset declared.toNat) := by
  rw [stringBytes, stringTableOffset_eq, Executable.stringTableOffset]
  simp only [ok_bind]
  cases e.coffHeader.stringTableOffset with
  | none => rfl
  | some offset =>
    simp only [fileRecord?_eq h, ok_bind, Option.bind_eq_bind, Option.bind_some]
    cases hdeclared : e.image.record? .u32 offset with
    | none => rfl
    | some declared =>
      -- The declared size was read, so the table starts inside the file.
      obtain ⟨bs, hbs, -⟩ := Option.map_eq_some_iff.mp hdeclared
      have hinside := ((Image.read_eq_some_iff _ _ _ _).mp hbs).1
      have hsize := e.image.length_toList
      have hclipped : e.image.clipped offset (min declared.toNat (e.image.size - offset)) =
          e.image.clipped offset declared.toNat := by
        rw [Image.clipped_eq, Image.clipped_eq, ← hsize, ← List.length_drop,
          ← List.take_eq_take_min]
      simp only [readFile_eq h]
      rw [Image.read, if_pos (by omega), hclipped]
      rfl

/-- The symbol table of an image is printed without a fault. -/
lemma printSymbols_eq (h : Fits e.image) :
    printSymbols e = .ok (symbols PayloadFormat.basic e) := by
  have hcount := e.coffHeader.numberOfSymbols.toNat_lt
  have hsize : Symbol.layout.size = 18 := by decide
  rw [printSymbols, symbols]
  simp only
  by_cases hnone : e.coffHeader.pointerToSymbolTable = 0 ∨ e.coffHeader.numberOfSymbols = 0
  · rw [if_pos hnone, if_neg fun hsymbols => hasSymbols_iff.mp hsymbols hnone]
    rfl
  · rw [if_neg hnone, if_pos (hasSymbols_iff.mpr hnone), hsize, checkedMul_eq (by omega),
      Option.getD_some, readFile_eq h, CoffHeader.symbolSize]
    cases e.image.read e.coffHeader.pointerToSymbolTable.toNat
        (e.coffHeader.numberOfSymbols.toNat * 18) with
    | none => rfl
    | some records =>
      simp only [stringBytes_eq h, ok_bind, symbolTable_eq]
      rfl

/-! ## Entries of the `.stab` section -/

/-- What is known of the memory of a section with a name after one more section. -/
def sectionTurn (e : Executable) (name : Bytes) (found : Option Bytes) (s : SectionHeader) :
    Step (Option Bytes) := do
  if (← cut s.name.toList) = name then
    memory e s.virtualAddress.toNat s.virtualSize.toNat
  else
    return found

/-- The memory of the last section with a name, when it can be read. -/
def sectionMemory (e : Executable) (name : String) : Step (Option Bytes) :=
  e.sections.foldlM (sectionTurn e name.toUTF8.data.toList) none

/-- The entries of the `.stab` section. -/
def printStabs (e : Executable) : Step String := do
  match ← sectionMemory e ".stab", ← sectionMemory e ".stabstr" with
  | some data, some strings => stabs data strings
  | _, _ => return ""

/-- Of several sections with a name the last one counts. -/
lemma foldlM_sectionTurn_eq (h : Fits e.image) (name : Bytes) (sections : List SectionHeader)
    (found : Option Bytes) :
    sections.foldlM (sectionTurn e name) found =
      .ok (match sections.reverse.find? fun s => s.rawName = name with
        | none => found
        | some s => e.memory s.virtualAddress.toNat s.virtualSize.toNat) := by
  induction sections generalizing found with
  | nil => rfl
  | cons s rest ih =>
    have hturn : sectionTurn e name found s =
        .ok (if s.rawName = name then e.memory s.virtualAddress.toNat s.virtualSize.toNat
          else found) := by
      rw [sectionTurn, cut_eq, (memory_serves h).read_eq _ _ s.virtualAddress.toNat_lt
        (Nat.lt_trans s.virtualSize.toNat_lt (by decide))]
      simp only [ok_bind]
      split <;> next hname => simp [SectionHeader.rawName, hname]
    rw [List.foldlM_cons, hturn, List.reverse_cons, List.find?_append]
    simp only [ok_bind, ih]
    cases rest.reverse.find? fun s => s.rawName = name with
    | some last => rfl
    | none => by_cases hname : s.rawName = name <;> simp [hname]

/-- The bytes of a section in memory are found by its name without a fault. -/
lemma sectionMemory_eq (h : Fits e.image) (name : String) :
    sectionMemory e name = .ok (Report.sectionMemory e name) := by
  rw [sectionMemory, foldlM_sectionTurn_eq h]
  rfl

/-- The size of a section has 32 bits. -/
lemma length_sectionMemory_lt {name : String} {bs : Bytes}
    (h : Report.sectionMemory e name = some bs) : bs.length < 2 ^ 32 := by
  rw [Report.sectionMemory] at h
  split at h
  · cases h
  · next s _ =>
    rw [e.memory_exact _ _ _ h]
    exact s.virtualSize.toNat_lt

/-- The stabs of an image are printed without a fault. -/
lemma printStabs_eq (h : Fits e.image) :
    printStabs e = .ok (stabEntries PayloadFormat.basic e) := by
  rw [printStabs, sectionMemory_eq h, sectionMemory_eq h]
  unfold stabEntries
  simp only [ok_bind]
  cases hdata : Report.sectionMemory e ".stab" with
  | none => rfl
  | some data =>
    cases Report.sectionMemory e ".stabstr" with
    | none => rfl
    | some strings => exact stabs_eq (length_sectionMemory_lt hdata) strings

/-! ## Images -/

/-- The headers that the options ask for. -/
def printHeaders (options : Options) (e : Executable) : Step String := do
  if options.header then
    let file ← printFileHeader e
    let optional ← printOptionalHeader e.optionalHeader
    let sections ← printSectionTable e.sections (sectionName e)
      (fun s => readFile e.image s.pointerToRawData.toNat s.sizeOfRawData.toNat) options.rawData
    return file ++ optional ++ sections
  else if options.selection.isNone then
    return (← printFileHeader e) ++ (← printOptionalHeader e.optionalHeader)
  else
    return ""

/-- The directory of a part. -/
def printPart (e : Executable) : Part → Step String
  | .imports => return (← printImports e) ++ (← printDelayedImports e)
  | .exports => printExports e
  | .debug => printDebug e
  | .resources => printResources e
  | .threadStorage => printThreadStorage e
  | .commonRuntime => printCommonRuntime e
  | .relocations => printRelocations e
  | .exceptions => printExceptions e

/-- The directories that are selected, each at its place. -/
def printDirectories (selection : Selection) (e : Executable) : Step String := do
  return String.join (← (Part.all.filter selection.contains).mapM (printPart e))

/-- The report of an image. -/
def printExecutable (options : Options) (e : Executable) : Step String := do
  let headers ← printHeaders options e
  let directories ←
    match options.selection with
    | some selection => printDirectories selection e
    | none => pure ""
  let symbols ← if options.symbolTable then printSymbols e else pure ""
  let stabs ← if options.stabs then printStabs e else pure ""
  return advisory e ++ headers ++ directories ++ symbols ++ stabs

/-- A decoded executable keeps its file, and the offset of its headers has 31 bits. -/
lemma image_of_parse {image : Image} (h : Executable.parse image = .ok e) :
    e.image = image ∧ e.headerOffset < 2 ^ 31 := by
  have hdecoded := Executable.parse_eq_ok_iff.mp h
  exact ⟨hdecoded.image_eq, newHeaderOffset_lt hdecoded.headerOffset⟩

/-- The headers are printed without a fault. -/
lemma printHeaders_eq (h : Fits e.image) (hoffset : e.headerOffset < 2 ^ 31) (options : Options) :
    printHeaders options e = .ok (headers options e) := by
  have hdata (s : SectionHeader) :
      readFile e.image s.pointerToRawData.toNat s.sizeOfRawData.toNat = e.sectionData s := by
    rw [readFile_eq h]
    rfl
  have hlength (s : SectionHeader) (bs : Bytes) (hbs : e.sectionData s = some bs) :
      bs.length < 2 ^ 64 := length_read_lt hbs
  simp only [printHeaders, hdata, printFileHeader_eq hoffset, printOptionalHeader_eq,
    printSectionTable_eq e.sections (sectionName_eq h) hlength, headers]
  split
  · rfl
  · split <;> rfl

/-- Each part is printed without a fault. -/
lemma printPart_eq (h : Fits e.image) (part : Part) :
    printPart e part = .ok (Report.part PayloadFormat.basic e part) := by
  cases part with
  | imports =>
    rw [printPart, printImports_eq h, printDelayedImports_eq h]
    rfl
  | exports => exact printExports_eq h
  | debug => exact printDebug_eq h
  | resources => exact printResources_eq h
  | threadStorage => exact printThreadStorage_eq h
  | commonRuntime => exact printCommonRuntime_eq h
  | relocations => exact printRelocations_eq h
  | exceptions => exact printExceptions_eq h

/-- The selected parts are printed without a fault. -/
lemma printDirectories_eq (h : Fits e.image) (selection : Selection) :
    printDirectories selection e = .ok (directories PayloadFormat.basic selection e) := by
  rw [printDirectories, mapM_eq fun part _ => printPart_eq h part]
  rfl

/-- The report of an executable is printed without a fault. -/
theorem printExecutable_eq {image : Image} (h : Fits image) (he : Executable.parse image = .ok e)
    (options : Options) :
    printExecutable options e = .ok (executable PayloadFormat.basic options e) := by
  obtain ⟨rfl, hoffset⟩ := image_of_parse he
  rw [printExecutable, printHeaders_eq h hoffset, printSymbols_eq h, printStabs_eq h, executable]
  simp only [ok_bind, printDirectories_eq h]
  cases options.selection <;> cases options.symbolTable <;> cases options.stabs <;> rfl

/-! ## Split debug files -/

variable {d : DebugFile}

/-- The report of a split debug file. It breaks off at the first table that is not there. -/
def printDebugFile (options : Options) (d : DebugFile) : Step String := do
  match d.sections with
  | none => return Report.debugHeader d.header ++ line "Can't get the sections, aborting"
  | some sections =>
    let table ← printSectionTable sections (fun s => do return .short (← shortName s))
      (fun s => readFile d.image s.pointerToRawData.toNat s.sizeOfRawData.toNat) options.rawData
    let entries ←
      match d.debugEntries with
      | none => pure (line "Couldn't get the debug directory info, aborting")
      | some entries => printDebugTable sections entries
    return Report.debugHeader d.header ++ (table ++ entries)

/-- The entries of a decoded debug file can be numbered, and their payloads are short. -/
lemma debugEntries_of_parse {image : Image} (h : DebugFile.parse image = .ok d) :
    d.image = image ∧ ∀ entries, d.debugEntries = some entries →
      entries.length < 2 ^ 32 ∧ ∀ entry ∈ entries, PayloadFits entry.payload := by
  simp only [DebugFile.parse, bind, Except.bind] at h
  split at h
  · cases h
  · next header _ =>
    cases h
    refine ⟨rfl, fun entries hentries => ?_⟩
    obtain ⟨_, _, hdirectory⟩ := Option.bind_eq_some_iff.mp hentries
    obtain ⟨table, htable, rfl⟩ := Option.map_eq_some_iff.mp hdirectory
    have hlength : table.length ≤ header.debugDirectorySize.toNat := by
      rw [Image.length_read htable]
      exact Nat.div_mul_le_self _ _
    have hle := length_decodeAll_le image table
    have hsize := header.debugDirectorySize.toNat_lt
    exact ⟨by omega, payloadFits_of_mem_decodeAll⟩

/-- The report of a debug file is printed without a fault. -/
theorem printDebugFile_eq {image : Image} (h : Fits image) (hd : DebugFile.parse image = .ok d)
    (options : Options) :
    printDebugFile options d = .ok (Report.debugFile PayloadFormat.basic options d) := by
  obtain ⟨rfl, hentries⟩ := debugEntries_of_parse hd
  have hname (s : SectionHeader) :
      (do return .short (← shortName s) : Step SectionName) = .ok (.short s.shortName) := by
    rw [shortName_eq]
    rfl
  have hlength (s : SectionHeader) (bs : Bytes)
      (hbs : d.image.read s.pointerToRawData.toNat s.sizeOfRawData.toNat = some bs) :
      bs.length < 2 ^ 64 := length_read_lt hbs
  rw [printDebugFile, Report.debugFile]
  cases d.sections with
  | none => rfl
  | some sections =>
    simp only [readFile_eq h, printSectionTable_eq sections hname hlength, ok_bind]
    cases hfound : d.debugEntries with
    | none => rfl
    | some entries =>
      obtain ⟨hcount, hfits⟩ := hentries entries hfound
      simp only [printDebugTable_eq sections hcount hfits]
      rfl

end PeCoff.Machine
