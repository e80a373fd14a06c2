import PeCoff.DebugFile
import PeCoff.Report.Directories

/-!
# Reports

The report of an image or of a split debug file: the parts that the options ask for, in a fixed
order. The text of each part depends on the file alone and not on what else is asked for.
-/

namespace PeCoff.Report

open Text

/-- The line on an image that only holds the place of a real one. -/
def advisory (e : Executable) : String :=
  if e.isPlaceholder then lines ["*** This is a placeholder DLL without code ***", ""] else ""

/-- The headers that the options ask for. The section table is left out of a report that asks for
nothing in particular. -/
def headers (options : Options) (e : Executable) : String :=
  let top := fileHeader e ++ optionalHeader e.optionalHeader
  if options.header then top ++ executableSections e options.rawData
  else if options.selection.isNone then top
  else ""

/-- The directories that are selected, each at its place. -/
def directories (format : PayloadFormat) (selection : Selection) (e : Executable) : String :=
  String.join ((Part.all.filter selection.contains).map (part format e))

/-- The symbol table, when the file holds all of it. The string table is cut off at its declared
size or at the end of the file. -/
def symbols (format : PayloadFormat) (e : Executable) : String :=
  let h := e.coffHeader
  if h.hasSymbols then
    let records := e.image.read h.pointerToSymbolTable.toNat
      (h.numberOfSymbols.toNat * CoffHeader.symbolSize)
    match records with
    | none => ""
    | some records =>
      let strings := do
        let offset ← e.stringTableOffset
        let declared ← e.image.record? .u32 offset
        return e.image.clipped offset declared.toNat
      format.symbolTable records h.numberOfSymbols strings e.sections
  else
    ""

/-- The memory of the last section with a name, when it can be read. -/
def sectionMemory (e : Executable) (name : String) : Option Bytes :=
  match e.sections.reverse.find? fun s => s.rawName = name.toUTF8.data.toList with
  | none => none
  | some s => e.memory s.virtualAddress.toNat s.virtualSize.toNat

/-- The entries of the `.stab` section. -/
def stabEntries (format : PayloadFormat) (e : Executable) : String :=
  match sectionMemory e ".stab", sectionMemory e ".stabstr" with
  | some data, some strings => format.stabs data strings
  | _, _ => ""

/-- The report of an image. -/
def executable (format : PayloadFormat) (options : Options) (e : Executable) : String :=
  advisory e
    ++ headers options e
    ++ (match options.selection with
      | some selection => directories format selection e
      | none => "")
    ++ (if options.symbolTable then symbols format e else "")
    ++ (if options.stabs then stabEntries format e else "")

/-! ## Split debug files -/

/-- The header of a split debug file. -/
def debugHeader (h : DebugHeader) : String :=
  let number (n : UInt32) := s!"0x{upperHexOf 8 n.toNat}"
  lines [
    "Signature:          DI (0x4944)",
    s!"Flags:              0x{upperHexOf 4 h.flags.toNat}",
    s!"Machine:            0x{upperHexOf 4 h.machine.toNat} ({machineName h.machine})",
    s!"Characteristics:    0x{upperHexOf 4 h.characteristics.toNat}",
    s!"TimeDateStamp:      0x{stampText h.timeDateStamp}",
    s!"CheckSum:           {number h.checkSum}",
    s!"ImageBase:          {number h.imageBase}",
    s!"SizeOfImage:        {number h.sizeOfImage}",
    s!"NumberOfSections:   {number h.numberOfSections}",
    s!"ExportedNamesSize:  {number h.exportedNamesSize}",
    s!"DebugDirectorySize: {number h.debugDirectorySize}"]

/-- The report of a split debug file. It breaks off at the first table that is not there. -/
def debugFile (format : PayloadFormat) (options : Options) (d : DebugFile) : String :=
  let data (s : SectionHeader) :=
    d.image.read s.pointerToRawData.toNat s.sizeOfRawData.toNat
  debugHeader d.header ++
    match d.sections with
    | none => line "Can't get the sections, aborting"
    | some sections =>
      sectionTable sections (fun s => .short s.shortName) data options.rawData ++
        match d.debugEntries with
        | none => line "Couldn't get the debug directory info, aborting"
        | some entries => debugTable format sections entries

/-- The line on a file whose headers cannot be decoded. -/
def headerFailure (error : DecodeError) : String :=
  line <|
    match error with
    | .debugSignature => "Can't grab the separate header, aborting"
    | .outOfBounds _ _ | .tooShort _ _ => "Can't grab the image headers, aborting"
    | _ => s!"Can't decode the image headers ({error.message}), aborting"

end PeCoff.Report
