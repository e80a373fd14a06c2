import PeCoff.DebugInfo.CodeView
import PeCoff.DebugInfo.FrameRecord
import PeCoff.DebugInfo.Stab
import PeCoff.DebugInfo.Symbol
import PeCoff.Report.Format
import PeCoff.Text.Escape
import PeCoff.Text.HexDump

/-!
# Debug information in a report

How the debug information and symbol tables of an image are shown. The rest of a report reaches this
through `PayloadFormat`, so that another way to show them can take its place; `PayloadFormat.basic`
shows the records of fixed size that each format has.
-/

namespace PeCoff.Report

open Text DebugInfo

/-- How to show what the rest of a report does not interpret. -/
structure PayloadFormat where
  /-- COFF debug information and the sections of its image. -/
  coffDebug : Option Bytes → List SectionHeader → String
  codeView : Option Bytes → String
  framePointers : Option Bytes → String
  /-- The records of a symbol table, their declared number, the string table, and the sections. -/
  symbolTable : Bytes → UInt32 → Option Bytes → List SectionHeader → String
  /-- Entries of the `.stab` section and their strings. -/
  stabs : Bytes → Bytes → String

/-! ## Symbol tables -/

/-- The line of a symbol that has a name and a label for its section. -/
def symbolLineOf (label name : String) (index : Nat) (s : DebugInfo.Symbol) : String :=
  "  " ++ " ".intercalate [
    hexOf 8 index,
    hexOf 8 s.value.toNat,
    alignLeft 8 label,
    hexOf 4 s.symbolType.toNat,
    alignRight 5 (toString s.storageClass.toNat),
    alignRight 3 (toString s.auxiliaryRecords.toNat),
    name]

/-- The line of a symbol. -/
def symbolLine (strings : Option Image) (sections : List SectionHeader) (index : Nat)
    (s : DebugInfo.Symbol) : String :=
  symbolLineOf (DebugInfo.Symbol.sectionLabel s.sectionNumber sections) (s.resolveName strings)
    index s

/-- A symbol table of a declared size with the lines of its symbols, and the index of a record that
it lacks. -/
def symbolTableOf (count : Nat) (rows : List String) (missing : Option Nat) : String :=
  line s!"Symbol Table ({count} entries)"
    ++ line "  Index    Value    Section  Type Class Aux Name"
    ++ lines rows
    ++ lines (missing.toList.map fun index => s!"  *** symbol table truncated at entry {index}")
    ++ line ""

/-- A symbol table. -/
def symbolTable (symbols : Bytes) (count : UInt32) (strings : Option Bytes)
    (sections : List SectionHeader) : String :=
  let (listed, missing) := DebugInfo.Symbol.listing count.toNat 0 symbols
  let strings := strings.map Image.ofList
  symbolTableOf count.toNat (listed.map fun (index, s) => symbolLine strings sections index s)
    missing

/-- The header of COFF debug information. -/
def symbolsHeader (h : SymbolsHeader) : String :=
  let range (first last : UInt32) := s!"{upperHexOf 8 first.toNat}-{upperHexOf 8 last.toNat}"
  lines [
    "    COFF symbols header",
    s!"      NumberOfSymbols:      {h.numberOfSymbols.toNat}",
    s!"      LvaToFirstSymbol:     {upperHexOf 8 h.firstSymbol.toNat}",
    s!"      NumberOfLinenumbers:  {h.numberOfLineNumbers.toNat}",
    s!"      LvaToFirstLinenumber: {upperHexOf 8 h.firstLineNumber.toNat}",
    s!"      Code:                 {range h.firstCodeByte h.lastCodeByte}",
    s!"      Data:                 {range h.firstDataByte h.lastDataByte}"]

/-- COFF debug information: its header, then its symbol table. -/
def coffDebug (data : Option Bytes) (sections : List SectionHeader) : String :=
  match data, data.bind SymbolsHeader.layout.decode? with
  | some data, some h =>
    let start := h.firstSymbol.toNat
    let length := h.numberOfSymbols.toNat * DebugInfo.Symbol.layout.size
    symbolsHeader h ++
      match Bytes.slice? data start length with
      | some symbols =>
        symbolTable symbols h.numberOfSymbols (some (data.drop (start + length))) sections
      | none => line "    Can't grab COFF symbols"
  | _, _ => line "    Can't grab COFF debug information"

/-! ## Other records -/

/-- A database with a unique identifier. -/
def rsdsRecord (identifier : Vector UInt8 16) (age : UInt32) (path : String) : String :=
  lines [
    "    CodeView signature: RSDS",
    s!"      GUID:     {CodeView.identifierText identifier}",
    s!"      Age:      {age.toNat}",
    s!"      PDB:      {path}"]

/-- A database with a time stamp for an identifier. -/
def nb10Record (offset signature age : UInt32) (path : String) : String :=
  lines [
    "    CodeView signature: NB10",
    s!"      Offset:    {upperHexOf 8 offset.toNat}",
    s!"      Signature: {upperHexOf 8 signature.toNat}",
    s!"      Age:       {age.toNat}",
    s!"      PDB:       {path}"]

/-- A record of another kind, by its escaped signature and a dump of all its bytes. -/
def otherRecord (signature : List Char) (dump : String) : String :=
  line s!"    CodeView signature: {String.ofList signature}" ++ dump

/-- A CodeView record. -/
def codeView (data : Option Bytes) : String :=
  match data with
  | none => line "    Can't grab CodeView data"
  | some data =>
    match CodeView.decode? data with
    | none => line s!"    CodeView record too short ({data.length} bytes)"
    | some (.rsds identifier age path) => rsdsRecord identifier age path
    | some (.nb10 offset signature age path) => nb10Record offset signature age path
    | some (.other signature) =>
      otherRecord (Escape.narrow signature.toList) (HexDump.render "      " (some data))

/-- The line of a frame pointer record. -/
def frameLine (r : FrameRecord) : String :=
  let column (width n : Nat) := alignRight width (toString n)
  "      " ++ " ".intercalate [
    hexOf 8 r.start.toNat,
    hexOf 8 r.size.toNat,
    column 6 r.locals.toNat,
    column 6 r.parameters.toNat,
    column 6 r.prolog,
    column 4 r.registers,
    if r.handlesExceptions then "  Y" else "  N",
    if r.usesBasePointer then " Y" else " N",
    r.frameName]

/-- Some frame pointer records. -/
def frameRecords (records : List FrameRecord) : String :=
  line s!"    FPO data ({records.length} records)"
    ++ line "      Start    Size     Locals Params Prolog Regs SEH BP Frame"
    ++ lines (records.map frameLine)

/-- Frame pointer records. -/
def framePointers (data : Option Bytes) : String :=
  match data with
  | none => line "    Can't grab FPO data"
  | some data => frameRecords (FrameRecord.layout.decodeAll data)

/-- The line of an entry of the `.stab` section. -/
def stabLine (index : Nat) (s : Stab) (name : String) : String :=
  let description := hexOf 4 s.description.toNat
  let value := hexOf 8 s.value.toNat
  s!"  {decimalOf 5 index} type {hexOf 2 s.kind.toNat} other {hexOf 2 s.other.toNat} "
    ++ s!"desc {description} value {value} {name}"

/-- Some entries of a `.stab` section and their names. -/
def stabTable (entries : List Stab) (names : List String) : String :=
  line s!"STABS ({entries.length} entries)"
    ++ lines ((entries.zip names).zipIdx.map fun ((s, name), index) => stabLine index s name)
    ++ line ""

/-- The entries of a `.stab` section. -/
def stabs (data strings : Bytes) : String :=
  let entries := Stab.layout.decodeAll data
  stabTable entries (Stab.names (.ofList strings) 0 0 entries)

/-- Shows the records of fixed size. -/
def PayloadFormat.basic : PayloadFormat where
  coffDebug := Report.coffDebug
  codeView := Report.codeView
  framePointers := Report.framePointers
  symbolTable := Report.symbolTable
  stabs := Report.stabs

end PeCoff.Report
