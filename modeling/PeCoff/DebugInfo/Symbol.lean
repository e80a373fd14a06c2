import PeCoff.Header.Section

/-!
# COFF symbols

The records of a COFF symbol table, and the header that precedes the table in debug information. A
name of up to eight bytes is in the record; a longer one is in the string table, at an offset that
stands in its place.
-/

namespace PeCoff.DebugInfo

/-- The header of COFF debug information. -/
structure SymbolsHeader where
  numberOfSymbols : UInt32
  /-- The offset of the first symbol from this header. -/
  firstSymbol : UInt32
  numberOfLineNumbers : UInt32
  firstLineNumber : UInt32
  firstCodeByte : UInt32
  lastCodeByte : UInt32
  firstDataByte : UInt32
  lastDataByte : UInt32
  deriving DecidableEq, Repr

/-- The places of the fields. -/
def SymbolsHeader.layout : Layout SymbolsHeader :=
  open Layout in
  (u32.pair <| u32.pair <| u32.pair <| u32.pair <| u32.pair <| u32.pair <| u32.pair u32).equiv
    (fun (a, b, c, d, e, f, g, h) => ⟨a, b, c, d, e, f, g, h⟩)
    (fun h => (h.numberOfSymbols, h.firstSymbol, h.numberOfLineNumbers, h.firstLineNumber,
      h.firstCodeByte, h.lastCodeByte, h.firstDataByte, h.lastDataByte))
    (fun _ => rfl) (fun _ => rfl)

/-- What a symbol is called. -/
inductive SymbolName where
  | short (name : String)
  /-- The name is in the string table, at an offset. -/
  | long (offset : UInt32)
  deriving DecidableEq, Repr

/-- A symbol. -/
structure Symbol where
  name : SymbolName
  value : UInt32
  /-- The section, counted from one; other numbers stand for no section. -/
  sectionNumber : Int16
  symbolType : UInt16
  storageClass : UInt8
  /-- How many records of another form follow. -/
  auxiliaryRecords : UInt8
  deriving DecidableEq, Repr

namespace Symbol

/-- The places of the fields of a record, the name as bytes. -/
def layout : Layout (Vector UInt8 8 × UInt32 × UInt16 × UInt16 × UInt8 × UInt8) :=
  open Layout in
  (u8.vector 8).pair <| u32.pair <| u16.pair <| u16.pair <| u8.pair u8

/-- The name that eight bytes hold; when the first four are zero, the others are an offset. -/
def nameOf (bs : Bytes) : SymbolName :=
  if bs.take 4 = [0, 0, 0, 0] then .long (Layout.u32.read (Bytes.zeroExtended (bs.drop 4)))
  else .short (Text.ofUtf8 (Bytes.untilZero bs))

/-- The symbol at the front of a byte string, when all of it is there. -/
def decode? (bs : Bytes) : Option Symbol := do
  let (name, value, sectionNumber, symbolType, storageClass, auxiliaryRecords) ←
    layout.decode? bs
  return {
    name := nameOf name.toList
    value
    sectionNumber := sectionNumber.toInt16
    symbolType
    storageClass
    auxiliaryRecords }

/-- The name of the symbol, looked up in a string table that starts with its own size. A name that
is not there is given by its offset. -/
def resolveName (s : Symbol) (strings : Option Image) : String :=
  match s.name with
  | .short name => name
  | .long offset =>
    match strings with
    | some table =>
      if offset.toNat ≤ table.size then Text.ofUtf8 (table.untilZero offset.toNat)
      else s!"/{offset.toNat}"
    | none => s!"/{offset.toNat}"

/-- What is said about the section of a symbol. -/
def sectionLabel (number : Int16) (sections : List SectionHeader) : String :=
  let n := number.toInt
  if n = 0 then "UNDEF"
  else if n = -1 then "ABS"
  else if n = -2 then "DEBUG"
  else if n < 0 then toString n
  else
    match sections[n.toNat - 1]? with
    | some s => s.shortName
    | none => toString n

/-- The symbols of a table of `count` records and the indices of their records, where `rest` holds
the records from `index` on. Records that belong to the symbol before them are left out. The second
component is the index of a record that the table should hold but does not. -/
def listing (count index : Nat) (rest : Bytes) : List (Nat × Symbol) × Option Nat :=
  if index < count then
    match decode? rest with
    | none => ([], some index)
    | some s =>
      let records := 1 + s.auxiliaryRecords.toNat
      let (symbols, missing) := listing count (index + records) (rest.drop (layout.size * records))
      ((index, s) :: symbols, missing)
  else
    ([], none)
termination_by count - index

end Symbol

end PeCoff.DebugInfo
