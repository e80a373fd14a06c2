import PeCoff.Executable
import PeCoff.Report.Format
import PeCoff.Text.HexDump

/-!
# Headers in a report

The COFF header, the optional header with its directory slots, and the section table.
-/

namespace PeCoff.Report

open Text

/-- A COFF header whose time stamp lies at a file offset. -/
def fileHeaderAt (h : CoffHeader) (stampOffset : Nat) : String :=
  let stamp := stampText h.timeDateStamp
  lines <| [
    "File Header",
    s!"  Machine:                      {upperHexOf 4 h.machine.toNat} ({machineName h.machine})",
    s!"  Number of Sections:           {h.numberOfSections.toNat}",
    s!"  TimeDateStamp:                {stamp} offset {stampOffset}",
    s!"  PointerToSymbolTable:         {upperHexOf 8 h.pointerToSymbolTable.toNat}",
    s!"  NumberOfSymbols:              {upperHexOf 8 h.numberOfSymbols.toNat}",
    s!"  SizeOfOptionalHeader:         {upperHexOf 4 h.sizeOfOptionalHeader.toNat}",
    s!"  Characteristics:              {upperHexOf 4 h.characteristics.toNat}"]
    ++ labelLines h.labels
    ++ [""]

/-- The COFF header. -/
def fileHeader (e : Executable) : String :=
  fileHeaderAt e.coffHeader (e.headerOffset + 8)

/-- The subsystem and the flags of a library. -/
def subsystemLines (subsystem characteristics : UInt16) : List String :=
  let name := OptionalHeader.subsystemName subsystem
  [titled "Subsystem" s!"0x{upperHex subsystem.toNat} ({name})",
    titled "DLL characteristics:" s!"0x{upperHex characteristics.toNat}"]
    ++ labelLines (OptionalHeader.libraryLabels characteristics)

/-- The fields of an optional header. The base of data and the fields of the width of addresses are
shown by the given functions. -/
def optionalFieldLines {Base Word : Type} (h : OptionalFields Base Word)
    (base : Base → List String) (long : String → Word → String) : List String :=
  [word "Magic" h.magic,
    version "linker version" h.majorLinkerVersion.toNat h.minorLinkerVersion.toNat,
    doubleWord "size of code" h.sizeOfCode,
    doubleWord "size of initialized data" h.sizeOfInitializedData,
    doubleWord "size of uninitialized data" h.sizeOfUninitializedData,
    doubleWord "entrypoint RVA" h.addressOfEntryPoint,
    doubleWord "base of code" h.baseOfCode]
    ++ base h.baseOfData
    ++ [long "image base" h.imageBase,
      doubleWord "section align" h.sectionAlignment,
      doubleWord "file align" h.fileAlignment,
      version "required OS version" h.majorSystemVersion.toNat h.minorSystemVersion.toNat,
      version "image version" h.majorImageVersion.toNat h.minorImageVersion.toNat,
      version "subsystem version" h.majorSubsystemVersion.toNat h.minorSubsystemVersion.toNat,
      doubleWord "Win32 Version" h.win32Version,
      doubleWord "size of image" h.sizeOfImage,
      doubleWord "size of headers" h.sizeOfHeaders,
      doubleWord "checksum" h.checkSum]
    ++ subsystemLines h.subsystem h.dllCharacteristics
    ++ [long "stack reserve size" h.sizeOfStackReserve,
      long "stack commit size" h.sizeOfStackCommit,
      long "heap reserve size" h.sizeOfHeapReserve,
      long "heap commit size" h.sizeOfHeapCommit,
      doubleWord "loader flags" h.loaderFlags]

/-- The slots that a header declares, called by their titles. -/
def slotLines (titles : List String) (h : OptionalHeader) : List String :=
  let shown := (titles.zip h.slots.toList).take h.declaredSlots.toNat
  [doubleWord "RVAs & sizes" h.declaredSlots, "", "Data Directory"]
    ++ shown.map (fun (title, d) => directoryLine 12 title d.address d.size)
    ++ [""]

/-- An optional header with titles for its slots. Only headers with one of the two known signatures
are shown in full. -/
def optionalHeaderWith (titles : List String) (h : OptionalHeader) : String :=
  let unknown := s!"  Unknown optional header magic: 0x{alignLeft 4 (upperHex h.magic.toNat)}"
  lines <| s!"Optional Header ({OptionalHeader.magicName h.magic})" ::
    match h with
    | .narrow fields =>
      if fields.magic = OptionalHeader.narrowMagic then
        optionalFieldLines fields (fun base => [doubleWord "base of data" base]) doubleWord
          ++ slotLines titles h
      else
        [unknown]
    | .wide fields => optionalFieldLines fields (fun _ => []) quadWord ++ slotLines titles h

/-- The optional header. -/
def optionalHeader (h : OptionalHeader) : String :=
  optionalHeaderWith (DirectorySlot.all.map DirectorySlot.title) h

/-- The name of a section in its line. -/
def sectionNameText : SectionName → String
  | .long raw name => s!"  {String.ofList (raw.toList.take 8)} ({name})"
  | .short name => s!"  {fitLeft 8 name}"

/-- A section header with labels for its characteristics. -/
def sectionHeaderWith (characteristics : List String) (s : SectionHeader) (name : SectionName) :
    String :=
  let field (n : UInt32) := s!"0x{hexOf 8 n.toNat}"
  let relocations := s!"0x{hexOf 8 s.numberOfRelocations.toNat}"
  let lineOffset := alignLeft 8 (toString s.pointerToLineNumbers.toNat)
  let lineCount := alignLeft 8 (toString s.numberOfLineNumbers.toNat)
  let labels := String.join (characteristics.map fun l => s!"  {l}")
  sectionNameText name ++ lines [
    s!"   VirtSize: {field s.virtualSize}  VirtAddr:  {field s.virtualAddress}",
    s!"    raw data offs:   {field s.pointerToRawData}  raw data size: {field s.sizeOfRawData}",
    s!"    relocation offs: {field s.pointerToRelocations}  relocations:   {relocations}",
    s!"    line # offs:     {lineOffset}  line #'s:      {lineCount}",
    s!"    characteristics: {field s.characteristics}",
    s!"    {labels}",
    ""]

/-- A section header. -/
def sectionHeader (s : SectionHeader) (name : SectionName) : String :=
  sectionHeaderWith (SectionHeader.labelsOf s.characteristics) s name

/-- A section table, with the data of each section when it is asked for. -/
def sectionTable (sections : List SectionHeader) (name : SectionHeader → SectionName)
    (data : SectionHeader → Option Bytes) (rawData : Bool) : String :=
  line "Section Table" ++ String.join (sections.map fun s =>
    sectionHeader s (name s)
      ++ if rawData then HexDump.render "    " (data s) ++ line "" else "")

/-- The section table of an image. -/
def executableSections (e : Executable) (rawData : Bool) : String :=
  sectionTable e.sections e.sectionName e.sectionData rawData

end PeCoff.Report
