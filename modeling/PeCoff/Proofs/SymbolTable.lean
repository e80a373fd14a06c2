import Mathlib
import PeCoff.Proofs.Columns
import PeCoff.Proofs.Layout
import PeCoff.Proofs.Machine.Payload
import PeCoff.Proofs.Utf8
import PeCoff.Report.Document

/-!
# The symbols of a symbol table

The records of a symbol table are numbered through, and each symbol says how many of the records
behind it belong to it. The main statement is `symbolTable_lists`: a table that is as long as
declared is shown in full, with one line for each record that does not belong to a symbol before it.
Whatever these records hold, symbols that are stored with them are listed one after the other. The
lines are given by their characters, and indices and names are read back from them.
-/

namespace PeCoff.DebugInfo.Symbol

/-- A symbol takes eighteen bytes. -/
lemma size_layout : layout.size = 18 := by decide

/-! ## Records -/

/-- Eighteen bytes are a symbol, of which the last says how many records follow. -/
lemma exists_decode? {bs : Bytes} (h : layout.size ≤ bs.length) :
    ∃ s, decode? bs = some s ∧ s.auxiliaryRecords = bs.zeroExtended 17 := by
  have hrecord : layout.decode? bs = some (layout.readAt bs.zeroExtended 0) := by
    rw [Layout.decode?_eq, if_pos h, Layout.readAt_zero]
  have hlast : (layout.readAt bs.zeroExtended 0).2.2.2.2.2 = bs.zeroExtended 17 := by
    simp only [layout, Layout.readAt_pair]
    exact UInt8.ofNat_toNat
  exact ⟨_, by rw [decode?, hrecord]; rfl, hlast⟩

/-- A symbol depends on the bytes of its record alone. -/
lemma decode?_take (bs : Bytes) : decode? (bs.take layout.size) = decode? bs := by
  simp only [decode?, Layout.decode?, List.take_take, Nat.min_self]

/-! ## The records that are symbols -/

variable {records : Bytes} {count first : Nat}

/-- How many records the record at an index says belong to it. -/
def auxiliaryAt (records : Bytes) (index : Nat) : Nat :=
  (records.zeroExtended (layout.size * index + 17)).toNat

/-- The index of the record of each symbol, as far as the records go. -/
def recordIndex (records : Bytes) : Nat → Nat
  | 0 => 0
  | k + 1 => recordIndex records k + 1 + auxiliaryAt records (recordIndex records k)

/-- Each symbol lies behind the one before it. -/
lemma strictMono_recordIndex (records : Bytes) : StrictMono (recordIndex records) := by
  refine strictMono_nat_of_lt_succ fun k => ?_
  rw [recordIndex]
  omega

/-- The symbols from one of them on, each with the index of its record: as many as have a record
below the count, at the indices that follow from each other, decoded from the bytes there. -/
structure Lists (records : Bytes) (count first : Nat) (listed : List (Nat × Symbol)) : Prop where
  lt_length_iff : ∀ k, k < listed.length ↔ recordIndex records (first + k) < count
  index_eq : ∀ k p, listed[k]? = some p → p.1 = recordIndex records (first + k)
  decode_eq : ∀ p ∈ listed, decode? ((records.drop (layout.size * p.1)).take layout.size) = some p.2

/-- From an index that is not below the count on there are no symbols. -/
lemma lists_nil (h : count ≤ recordIndex records first) : Lists records count first [] where
  lt_length_iff k := by
    have hmono := (strictMono_recordIndex records).monotone (Nat.le_add_right first k)
    simp only [List.length_nil, Nat.not_lt_zero, false_iff]
    omega
  index_eq k p hp := by cases hp
  decode_eq := by simp

/-- A symbol comes before those that come after it. -/
lemma Lists.cons {s : Symbol} {listed : List (Nat × Symbol)} (h : recordIndex records first < count)
    (hs : decode? ((records.drop (layout.size * recordIndex records first)).take layout.size) = some s)
    (hlisted : Lists records count (first + 1) listed) :
    Lists records count first ((recordIndex records first, s) :: listed) where
  lt_length_iff k := by
    cases k with
    | zero => simpa using h
    | succ k =>
      rw [List.length_cons, Nat.succ_lt_succ_iff, hlisted.lt_length_iff, Nat.add_right_comm,
        Nat.add_assoc]
  index_eq k p hp := by
    cases k with
    | zero =>
      cases hp
      rfl
    | succ k =>
      rw [hlisted.index_eq k p hp, Nat.add_right_comm, Nat.add_assoc]
  decode_eq := by
    rw [List.forall_mem_cons]
    exact ⟨hs, hlisted.decode_eq⟩

/-- The symbols of a table have indices below the count. -/
lemma Lists.index_lt {listed : List (Nat × Symbol)} (h : Lists records count first listed)
    {p : Nat × Symbol} (hp : p ∈ listed) : p.1 < count := by
  obtain ⟨k, hk, hp⟩ := List.mem_iff_getElem.mp hp
  rw [h.index_eq k p (by rw [List.getElem?_eq_getElem hk, hp])]
  exact (h.lt_length_iff k).mp hk

/-- A table that is as long as declared is followed to its end from each of its symbols on. -/
lemma exists_listing (hlength : records.length = layout.size * count) (first : Nat) :
    ∃ listed, Lists records count first listed ∧
      listing count (recordIndex records first)
        (records.drop (layout.size * recordIndex records first)) = (listed, none) := by
  induction hn : count - recordIndex records first using Nat.strong_induction_on generalizing first with
  | _ n ih =>
    rw [listing]
    by_cases h : recordIndex records first < count
    · have hrecord : layout.size ≤ (records.drop (layout.size * recordIndex records first)).length := by
        rw [List.length_drop, hlength, ← Nat.mul_sub]
        exact Nat.le_mul_of_pos_right _ (Nat.sub_pos_of_lt h)
      obtain ⟨s, hs, hauxiliary⟩ := exists_decode? hrecord
      have hnext : recordIndex records (first + 1) =
          recordIndex records first + (1 + s.auxiliaryRecords.toNat) := by
        rw [recordIndex, auxiliaryAt, hauxiliary, Machine.zeroExtended_drop, Nat.add_assoc]
      obtain ⟨listed, hlisted, hrest⟩ := ih _ (by omega) (first + 1) rfl
      refine ⟨(recordIndex records first, s) :: listed,
        hlisted.cons h (by rw [decode?_take, hs]), ?_⟩
      rw [hnext, Nat.mul_add, ← List.drop_drop] at hrest
      simp only [if_pos h, hs, hrest]
    · exact ⟨[], lists_nil (Nat.le_of_not_lt h), if_neg h⟩

/-! ## Stored symbols -/

/-- A symbol as it is stored: its record, and behind it any bytes in place of as many records as it
says belong to it. -/
structure Stored where
  record : Bytes
  length_record : record.length = layout.size
  auxiliary : Bytes
  length_auxiliary : auxiliary.length = layout.size * (record.zeroExtended 17).toNat

namespace Stored

def bytes (s : Stored) : Bytes :=
  s.record ++ s.auxiliary

/-- How many records there are of the symbol. -/
def size (s : Stored) : Nat :=
  1 + (s.record.zeroExtended 17).toNat

/-- A stored symbol can be decoded. -/
lemma isSome_decode? (s : Stored) : (decode? s.record).isSome := by
  obtain ⟨symbol, hsymbol, -⟩ := exists_decode? (Nat.le_of_eq s.length_record.symm)
  rw [hsymbol]
  rfl

/-- The symbol of the record. -/
def symbol (s : Stored) : Symbol :=
  (decode? s.record).get s.isSome_decode?

/-- Symbols, each with the index of its record when the records of one follow those of the other. -/
def numbered : (index : Nat) → List Stored → List (Nat × Symbol)
  | _, [] => []
  | index, s :: stored => (index, s.symbol) :: numbered (index + s.size) stored

/-- A stored symbol is decoded, whatever lies behind it. -/
lemma decode?_bytes_append (s : Stored) (rest : Bytes) :
    decode? (s.bytes ++ rest) = some s.symbol := by
  have hrecord : (s.bytes ++ rest).take layout.size = s.record := by
    rw [bytes, List.append_assoc, ← s.length_record, List.take_left]
  rw [← decode?_take, hrecord, symbol, Option.some_get]

/-- A stored symbol takes one record, and one more for each that it declares. -/
lemma size_eq (s : Stored) : 1 + s.symbol.auxiliaryRecords.toNat = s.size := by
  obtain ⟨symbol, hsymbol, hauxiliary⟩ := exists_decode? (Nat.le_of_eq s.length_record.symm)
  have hs : s.symbol = symbol := by
    simp only [Stored.symbol, hsymbol, Option.get_some]
  rw [hs, hauxiliary, size]

/-- A stored symbol takes the bytes of its records. -/
lemma length_bytes (s : Stored) : s.bytes.length = layout.size * s.size := by
  rw [bytes, List.length_append, s.length_record, s.length_auxiliary, size, Nat.mul_add, Nat.mul_one]

/-- Symbols that are stored one after the other are found one after the other. -/
lemma listing_flatMap (stored : List Stored) (index : Nat) :
    listing (index + (stored.map size).sum) index (stored.flatMap bytes) =
      (numbered index stored, none) := by
  induction stored generalizing index with
  | nil => rw [listing, if_neg (by simp), numbered]
  | cons s stored ih =>
    have hlt : index < index + ((s :: stored).map size).sum := by
      rw [List.map_cons, List.sum_cons, size]
      omega
    have hrest := ih (index + s.size)
    rw [Nat.add_assoc] at hrest
    rw [listing, if_pos hlt, List.flatMap_cons, decode?_bytes_append]
    simp only [size_eq, ← length_bytes, List.drop_left, List.map_cons, List.sum_cons, hrest, numbered]

/-- Stored symbols have indices below their number. -/
lemma index_lt {stored : List Stored} {index : Nat} {p : Nat × Symbol}
    (hp : p ∈ numbered index stored) : p.1 < index + (stored.map size).sum := by
  induction stored generalizing index with
  | nil => cases hp
  | cons s stored ih =>
    rw [List.map_cons, List.sum_cons]
    obtain rfl | hp := List.mem_cons.mp hp
    · rw [size]
      omega
    · have hlt := ih hp
      omega

end Stored

/-! ## Lines -/

/-- The line of a symbol with the index of its record: the index, the value, the section, the type,
the class, the number of records that belong to it, and its name. -/
def row (strings : Option Bytes) (sections : List SectionHeader) (p : Nat × Symbol) : List Char :=
  [' ', ' '] ++ Text.numberIn 16 8 '0' p.1
    ++ ' ' :: Text.numberIn 16 8 '0' p.2.value.toNat
    ++ ' ' :: (sectionLabel p.2.sectionNumber sections).toList.rightpad 8 ' '
    ++ ' ' :: Text.numberIn 16 4 '0' p.2.symbolType.toNat
    ++ ' ' :: Text.numberIn 10 5 ' ' p.2.storageClass.toNat
    ++ ' ' :: Text.numberIn 10 3 ' ' p.2.auxiliaryRecords.toNat
    ++ ' ' :: (p.2.resolveName (strings.map .ofList)).toList

/-- The index and the name on a line. The columns before the name have the same widths on each. -/
def readRow (l : List Char) : Nat × String :=
  (Text.Escape.valueOf 16 ((l.drop 2).take 8), String.ofList (l.drop 44))

/-- The indices and names of a table: those on its lines but for the two of its title, and the empty
one at its end. -/
def readTable (text : String) : List (Nat × String) :=
  (tableBody 2 '\n' text.toList).map readRow

variable {strings : Option Bytes} {sections : List SectionHeader} {index : Nat} {s : Symbol}

/-- A symbol is shown on its line. -/
lemma toList_symbolLine (strings : Option Bytes) (sections : List SectionHeader) (index : Nat)
    (s : Symbol) : (Report.symbolLine (strings.map .ofList) sections index s).toList =
      row strings sections (index, s) := by
  have hblank : " ".toList = [' '] := rfl
  have hindent : "  ".toList = [' ', ' '] := rfl
  rw [Report.symbolLine, Report.symbolLineOf, row, String.toList_append, String.toList_intercalate]
  simp only [List.map_cons, List.map_nil, List.intercalate_cons_cons, List.intercalate_singleton,
    hblank, hindent, Text.toList_hexOf, Text.toList_alignLeft, Text.toList_alignRight,
    List.append_assoc, List.cons_append, List.nil_append]

/-- The number of a section has at most six characters. -/
lemma length_toString_toInt_le (number : Int16) : (toString number.toInt).toList.length ≤ 6 := by
  have hlow := number.le_toInt
  have hhigh := number.toInt_lt
  have hdigits {n : Nat} (h : n ≤ 32768) : n.repr.toList.length ≤ 5 := by
    rw [String.length_toList, Nat.length_repr_le_iff (by decide)]
    omega
  rw [Int.toString_eq_repr]
  cases hnumber : number.toInt with
  | ofNat n =>
    have hnumber : number.toInt = n := hnumber
    have hn := hdigits (n := n) (by omega)
    exact hn.trans (by decide)
  | negSucc n =>
    have hn := hdigits (n := n.succ) (by omega)
    have hsign : "-".toList.length = 1 := rfl
    rw [Int.repr, String.toList_append, List.length_append, hsign]
    omega

/-- What is said about a section fits in the column for it. -/
lemma length_sectionLabel_le (number : Int16) (sections : List SectionHeader) :
    (sectionLabel number sections).toList.length ≤ 8 := by
  have hnumber := length_toString_toInt_le number
  simp only [sectionLabel]
  split_ifs
  · decide
  · decide
  · decide
  · omega
  · split
    · next header _ =>
      have hname : header.rawName.length ≤ 8 :=
        (List.takeWhile_prefix _).length_le.trans (Nat.le_of_eq header.name.length_toList)
      rw [SectionHeader.shortName, Text.ofUtf8, String.toList_ofList]
      exact (Text.Utf8.length_decode_le _).trans hname
    · omega

/-- Index and name are read off a line. -/
lemma readRow_row (strings : Option Bytes) (sections : List SectionHeader) (s : Symbol)
    (hindex : index < 16 ^ 8) :
    readRow (row strings sections (index, s)) = (index, s.resolveName (strings.map .ofList)) := by
  have hwidth (n : UInt32) : (Text.numberIn 16 8 '0' n.toNat).length = 8 :=
    Text.length_numberIn (by decide) (by decide) (n.toNat_lt.trans_le (by decide))
  have hlabel : ((sectionLabel s.sectionNumber sections).toList.rightpad 8 ' ').length = 8 := by
    rw [List.length_rightpad, Nat.max_eq_left (length_sectionLabel_le _ _)]
  have htype : (Text.numberIn 16 4 '0' s.symbolType.toNat).length = 4 :=
    Text.length_numberIn (by decide) (by decide) (s.symbolType.toNat_lt.trans_le (by decide))
  have hclass : (Text.numberIn 10 5 ' ' s.storageClass.toNat).length = 5 :=
    Text.length_numberIn (by decide) (by decide) (s.storageClass.toNat_lt.trans (by decide))
  have hauxiliary : (Text.numberIn 10 3 ' ' s.auxiliaryRecords.toNat).length = 3 :=
    Text.length_numberIn (by decide) (by decide) (s.auxiliaryRecords.toNat_lt.trans (by decide))
  have hfirst : (Text.numberIn 16 8 '0' index).length = 8 :=
    Text.length_numberIn (by decide) (by decide) hindex
  -- All columns before the name have a fixed width, whatever they show.
  have hname : (row strings sections (index, s)).drop 44 =
      (s.resolveName (strings.map .ofList)).toList := by
    rw [row, List.append_cons]
    refine List.drop_left' ?_
    simp only [List.length_append, List.length_cons, List.length_nil, hfirst, hwidth, hlabel, htype,
      hclass, hauxiliary]
  have hnumber : ((row strings sections (index, s)).drop 2).take 8 =
      Text.numberIn 16 8 '0' index := by
    simp only [row, List.append_assoc]
    exact List.take_left' hfirst
  rw [readRow, hname, hnumber, Text.valueOf_numberIn (by decide) (by decide), String.ofList_toList]

/-! ## Tables -/

/-- The two lines of the title of a symbol table of a declared size. -/
def tableTitle (count : UInt32) : List (List Char) :=
  [s!"Symbol Table ({count.toNat} entries)".toList,
    "  Index    Value    Section  Type Class Aux Name".toList]

/-- The lines of a symbol table of a declared size that lists symbols: its title, a line for each
symbol, and an empty line. -/
def tableRows (count : UInt32) (strings : Option Bytes) (sections : List SectionHeader)
    (listed : List (Nat × Symbol)) : List (List Char) :=
  tableTitle count ++ listed.map (row strings sections) ++ [[]]

/-- A text is a symbol table of a declared size that lists symbols. -/
structure ShowsListing (count : UInt32) (strings : Option Bytes) (sections : List SectionHeader)
    (listed : List (Nat × Symbol)) (text : String) : Prop where
  text_eq : text.toList = (tableRows count strings sections listed).flatMap (· ++ ['\n'])
  /-- Each line tells the index and the name of its symbol. -/
  readRow_eq : ∀ p ∈ listed, readRow (row strings sections p) =
    (p.1, p.2.resolveName (strings.map .ofList))
  /-- The text tells the indices and names of all of them, unless what it quotes breaks lines. -/
  readTable_eq : (∀ p ∈ listed, '\n' ∉ (sectionLabel p.2.sectionNumber sections).toList ∧
      '\n' ∉ (p.2.resolveName (strings.map .ofList)).toList) →
    readTable text = listed.map fun p => (p.1, p.2.resolveName (strings.map .ofList))

/-- A line is broken only by what it quotes. -/
lemma lineFeed_notMem_row {p : Nat × Symbol}
    (hlabel : '\n' ∉ (sectionLabel p.2.sectionNumber sections).toList)
    (hname : '\n' ∉ (p.2.resolveName (strings.map .ofList)).toList) :
    '\n' ∉ row strings sections p := by
  have hnumber {base width n : Nat} {fill : Char} (hbase : 1 < base) (hle : base ≤ 16)
      (hfill : '\n' ≠ fill) : '\n' ∉ Text.numberIn base width fill n :=
    Text.lineFeed_notMem_numberIn hbase hle hfill
  simp [row, hlabel, hname, hnumber]

/-- The title is not broken. -/
lemma lineFeed_notMem_tableTitle (count : UInt32) : ∀ l ∈ tableTitle count, '\n' ∉ l := by
  have hfirst : '\n' ∉ s!"Symbol Table ({count.toNat} entries)".toList := by
    simp only [String.toList_append, List.mem_append, not_or]
    exact ⟨⟨by decide, Text.lineFeed_notMem_toString _⟩, by decide⟩
  have hcolumns : '\n' ∉ "  Index    Value    Section  Type Class Aux Name".toList := by decide
  simp only [tableTitle, List.forall_mem_cons]
  exact ⟨hfirst, hcolumns, nofun⟩

/-- The text of a table of which no record is missing. -/
lemma toList_symbolTable {records : Bytes} {count : UInt32} {listed : List (Nat × Symbol)}
    (h : listing count.toNat 0 records = (listed, none)) (strings : Option Bytes)
    (sections : List SectionHeader) :
    (Report.symbolTable records count strings sections).toList =
      (tableRows count strings sections listed).flatMap (· ++ ['\n']) := by
  have hrows : (listed.map fun p =>
      Report.symbolLine (strings.map .ofList) sections p.1 p.2).map String.toList =
      listed.map (row strings sections) := by
    rw [List.map_map]
    exact List.map_congr_left fun p _ => toList_symbolLine strings sections p.1 p.2
  have hmissing : Report.lines [] = "" := rfl
  have htable : Report.symbolTable records count strings sections =
      Report.symbolTableOf count.toNat (listed.map fun p =>
        Report.symbolLine (strings.map .ofList) sections p.1 p.2) none := by
    rw [Report.symbolTable, h]
  rw [htable]
  simp only [Report.symbolTableOf, Option.toList_none, List.map_nil, hmissing, String.append_empty,
    String.toList_append, Report.toList_line, Report.toList_lines, hrows, tableRows, tableTitle,
    List.flatMap_append, List.flatMap_cons, List.flatMap_nil]
  rfl

/-- A table of which no record is missing is shown in full. -/
lemma showsListing_symbolTable {records : Bytes} {count : UInt32} {listed : List (Nat × Symbol)}
    (h : listing count.toNat 0 records = (listed, none)) (hindex : ∀ p ∈ listed, p.1 < count.toNat)
    (strings : Option Bytes) (sections : List SectionHeader) :
    ShowsListing count strings sections listed
      (Report.symbolTable records count strings sections) := by
  have hrow : ∀ p ∈ listed, readRow (row strings sections p) =
      (p.1, p.2.resolveName (strings.map .ofList)) := fun p hp =>
    readRow_row strings sections p.2 ((hindex p hp).trans count.toNat_lt)
  refine ⟨toList_symbolTable h strings sections, hrow, fun hquoted => ?_⟩
  have hrows : ∀ l ∈ listed.map (row strings sections), '\n' ∉ l := by
    rw [List.forall_mem_map]
    exact fun p hp => lineFeed_notMem_row (hquoted p hp).1 (hquoted p hp).2
  have hbody : tableBody 2 '\n' ((tableRows count strings sections listed).flatMap (· ++ ['\n'])) =
      listed.map (row strings sections) :=
    tableBody_flatMap rfl (lineFeed_notMem_tableTitle count) hrows
  rw [readTable, toList_symbolTable h, hbody, List.map_map]
  exact List.map_congr_left hrow

/-! ## Reports -/

/-- A text shows records in a format, and they are as many as declared. -/
def ShowsTable (format : Report.PayloadFormat) (records : Bytes) (count : UInt32)
    (sections : List SectionHeader) (text : String) : Prop :=
  records.length = 18 * count.toNat ∧
    ∃ strings, text = format.symbolTable records count strings sections

/-- The records of the symbol table of an image, all of which are in the file. -/
def InFile (e : Executable) (records : Bytes) : Prop :=
  e.coffHeader.pointerToSymbolTable ≠ 0 ∧ e.coffHeader.numberOfSymbols ≠ 0 ∧
    e.image.read e.coffHeader.pointerToSymbolTable.toNat
      (18 * e.coffHeader.numberOfSymbols.toNat) = some records

/-- The records of the symbol table behind a header of COFF debug information. -/
def InPayload (bs : Bytes) (h : SymbolsHeader) (records : Bytes) : Prop :=
  h.firstSymbol.toNat + 18 * h.numberOfSymbols.toNat ≤ bs.length ∧
    records = (bs.drop h.firstSymbol.toNat).take (18 * h.numberOfSymbols.toNat)

/-- An image declares a symbol table if it has a place and symbols. -/
lemma hasSymbols_iff {h : CoffHeader} :
    h.hasSymbols ↔ h.pointerToSymbolTable ≠ 0 ∧ h.numberOfSymbols ≠ 0 := by
  rw [CoffHeader.hasSymbols, Bool.and_eq_true, bne_iff_ne, bne_iff_ne]

/-- A symbol table that is in the file is shown with all of its records. -/
lemma InFile.showsTable_symbols {e : Executable} (h : InFile e records)
    (format : Report.PayloadFormat) :
    ShowsTable format records e.coffHeader.numberOfSymbols e.sections (Report.symbols format e) := by
  obtain ⟨hplace, hcount, hread⟩ := h
  have hread' : e.image.read e.coffHeader.pointerToSymbolTable.toNat
      (e.coffHeader.numberOfSymbols.toNat * CoffHeader.symbolSize) = some records := by
    rwa [Nat.mul_comm] at hread
  simp only [Report.symbols, if_pos (hasSymbols_iff.mpr ⟨hplace, hcount⟩), hread']
  exact ⟨Image.length_read hread, _, rfl⟩

/-- A symbol table that is not in the file is not shown. -/
lemma symbols_of_not_inFile {e : Executable} (h : ∀ records, ¬ InFile e records)
    (format : Report.PayloadFormat) : Report.symbols format e = "" := by
  by_cases hsymbols : e.coffHeader.hasSymbols
  · obtain ⟨hplace, hcount⟩ := hasSymbols_iff.mp hsymbols
    have hread : e.image.read e.coffHeader.pointerToSymbolTable.toNat
        (e.coffHeader.numberOfSymbols.toNat * CoffHeader.symbolSize) = none := by
      rw [Nat.mul_comm]
      exact Option.eq_none_iff_forall_ne_some.mpr fun records hread =>
        h records ⟨hplace, hcount, hread⟩
    simp only [Report.symbols, if_pos hsymbols, hread]
  · rw [Report.symbols, if_neg hsymbols]

/-- The records behind a header are cut out of the payload. -/
lemma slice?_eq_some_iff {bs : Bytes} {h : SymbolsHeader} :
    Bytes.slice? bs h.firstSymbol.toNat (h.numberOfSymbols.toNat * layout.size) = some records ↔
      InPayload bs h records := by
  rw [Bytes.slice?, InPayload, size_layout, Nat.mul_comm, List.length_take, List.length_drop]
  split
  · next hinside =>
    rw [Option.some_inj]
    exact ⟨fun heq => ⟨by omega, heq.symm⟩, fun hpayload => hpayload.2.symm⟩
  · next houtside =>
    refine iff_of_false (Option.some_ne_none records).symm fun hpayload => houtside ?_
    have hend := hpayload.1
    omega

/-- A symbol table that is in the payload is shown with all of its records, behind the header. -/
lemma InPayload.showsTable_coffDebug {bs : Bytes} {h : SymbolsHeader}
    (hpayload : InPayload bs h records) (hheader : SymbolsHeader.layout.decode? bs = some h)
    (sections : List SectionHeader) : ∃ table, Report.coffDebug (some bs) sections =
      Report.symbolsHeader h ++ table ∧ ShowsTable .basic records h.numberOfSymbols sections table := by
  have hlength : records.length = 18 * h.numberOfSymbols.toNat := by
    obtain ⟨hend, rfl⟩ := hpayload
    rw [List.length_take, List.length_drop]
    omega
  simp only [Report.coffDebug, Option.bind_some, hheader, slice?_eq_some_iff.mpr hpayload]
  exact ⟨_, rfl, hlength, _, rfl⟩

/-- Of a symbol table that is not in the payload only the header is shown. -/
lemma coffDebug_of_not_inPayload {bs : Bytes} {h : SymbolsHeader}
    (hpayload : ∀ records, ¬ InPayload bs h records)
    (hheader : SymbolsHeader.layout.decode? bs = some h) (sections : List SectionHeader) :
    Report.coffDebug (some bs) sections =
      Report.symbolsHeader h ++ "    Can't grab COFF symbols\n" := by
  have hslice := Option.eq_none_iff_forall_ne_some.mpr fun records hslice =>
    hpayload records (slice?_eq_some_iff.mp hslice)
  simp only [Report.coffDebug, Option.bind_some, hheader, hslice]
  rfl

/-- Without a header nothing of a payload is shown. -/
lemma coffDebug_of_no_header {data : Option Bytes}
    (hheader : data.bind SymbolsHeader.layout.decode? = none) (sections : List SectionHeader) :
    Report.coffDebug data sections = "    Can't grab COFF debug information\n" := by
  cases data with
  | none => rfl
  | some bs =>
    rw [Option.bind_some] at hheader
    simp only [Report.coffDebug, Option.bind_some, hheader]
    rfl

/-- A symbol table that is as long as declared is shown in full: one line for each record that does
not belong to a symbol before it, and nothing about records that it lacks. Reports show the tables
that are in a file or in a payload, and no others. Symbols that are stored with any bytes in place
of the records that belong to them are listed, all of them and nothing else, in their order. -/
theorem symbolTable_lists :
    (∀ (records : Bytes) (count : UInt32) strings sections,
      records.length = 18 * count.toNat →
      StrictMono (recordIndex records) ∧ ∃ listed, Lists records count.toNat 0 listed ∧
        ShowsListing count strings sections listed
          (Report.PayloadFormat.basic.symbolTable records count strings sections)) ∧
    (∀ format e,
      (∀ records, InFile e records → ShowsTable format records e.coffHeader.numberOfSymbols
        e.sections (Report.symbols format e)) ∧
      ((∀ records, ¬ InFile e records) → Report.symbols format e = "")) ∧
    (∀ bs h sections, SymbolsHeader.layout.decode? bs = some h →
      (∀ records, InPayload bs h records → ∃ table,
        Report.PayloadFormat.basic.coffDebug (some bs) sections = Report.symbolsHeader h ++ table ∧
        ShowsTable .basic records h.numberOfSymbols sections table) ∧
      ((∀ records, ¬ InPayload bs h records) →
        Report.PayloadFormat.basic.coffDebug (some bs) sections =
          Report.symbolsHeader h ++ "    Can't grab COFF symbols\n")) ∧
    (∀ data sections, data.bind SymbolsHeader.layout.decode? = none →
      Report.PayloadFormat.basic.coffDebug data sections =
        "    Can't grab COFF debug information\n") ∧
    ∀ (stored : List Stored) (count : UInt32) strings sections,
      (stored.map Stored.size).sum = count.toNat →
      ShowsListing count strings sections (Stored.numbered 0 stored)
        (Report.PayloadFormat.basic.symbolTable (stored.flatMap Stored.bytes) count strings
          sections) := by
  refine ⟨?full, ?image, ?payload, ?header, ?stored⟩
  case full =>
    intro records count strings sections hlength
    obtain ⟨listed, hlisted, hlisting⟩ := exists_listing hlength 0
    rw [recordIndex, Nat.mul_zero, List.drop_zero] at hlisting
    exact ⟨strictMono_recordIndex records, listed, hlisted,
      showsListing_symbolTable hlisting (fun p hp => hlisted.index_lt hp) strings sections⟩
  case image =>
    intro format e
    exact ⟨fun records h => h.showsTable_symbols format, fun h => symbols_of_not_inFile h format⟩
  case payload =>
    intro bs h sections hheader
    exact ⟨fun records hpayload => hpayload.showsTable_coffDebug hheader sections,
      fun hpayload => coffDebug_of_not_inPayload hpayload hheader sections⟩
  case header =>
    intro data sections hheader
    exact coffDebug_of_no_header hheader sections
  case stored =>
    intro stored count strings sections hcount
    have hlisting := Stored.listing_flatMap stored 0
    rw [Nat.zero_add, hcount] at hlisting
    refine showsListing_symbolTable hlisting (fun p hp => ?_) strings sections
    have hlt := Stored.index_lt hp
    rwa [Nat.zero_add, hcount] at hlt

/-- Two symbols: one with two more records, of bytes that are no records of the kind, and one with
none. -/
def storedPair : List Stored := [
  { record := [77, 97, 105, 110, 0, 0, 0, 0, 0, 16, 0, 0, 1, 0, 32, 0, 2, 2]
    length_record := by decide
    auxiliary := List.replicate 36 0xFF
    length_auxiliary := by decide },
  { record := [98, 0, 0, 0, 0, 0, 0, 0, 4, 0, 0, 0, 0xFF, 0xFF, 0, 0, 3, 0]
    length_record := by decide
    auxiliary := []
    length_auxiliary := by decide }]

/-- Records of which the second one claims more records than there are. -/
def overrun : Bytes :=
  List.replicate 18 0 ++ List.replicate 17 0 ++ [200] ++ List.replicate 18 0

/-- A table ends with the symbol that claims too many records; records that belong to a symbol are
not shown. -/
theorem symbolTable_lists_overrun :
    (overrun.length = 18 * (3 : UInt32).toNat ∧ ∃ listed, listed.length = 2 ∧
      ShowsListing 3 none [] listed (Report.symbolTable overrun 3 none [])) ∧
    (storedPair.map Stored.size).sum = (4 : UInt32).toNat ∧
      Report.symbolTable (storedPair.flatMap Stored.bytes) 4 none [] =
        "Symbol Table (4 entries)\n  Index    Value    Section  Type Class Aux Name\n"
          ++ "  00000000 00001000 1        0020     2   2 Main\n"
          ++ "  00000003 00000004 ABS      0000     3   0 b\n\n" ∧
      readTable (Report.symbolTable (storedPair.flatMap Stored.bytes) 4 none []) =
        [(0, "Main"), (3, "b")] := by
  obtain ⟨hlists, -, -, -, hstored⟩ := symbolTable_lists
  have hlength : overrun.length = 18 * (3 : UInt32).toNat := by decide
  have hsum : (storedPair.map Stored.size).sum = (4 : UInt32).toNat := by decide
  have hnumbered : Stored.numbered 0 storedPair =
      [(0, ⟨.short "Main", 4096, 1, 32, 2, 2⟩), (3, ⟨.short "b", 4, -1, 0, 3, 0⟩)] := by
    decide +kernel
  obtain ⟨-, listed, hlisted, hshown⟩ := hlists overrun 3 none [] hlength
  have hpair := hstored storedPair 4 none [] hsum
  rw [hnumbered] at hpair
  refine ⟨⟨hlength, listed, ?_, hshown⟩, hsum, ?_, hpair.readTable_eq (by decide)⟩
  · have hsecond : 1 < listed.length := (hlisted.lt_length_iff 1).mpr (by decide)
    have hthird : ¬ 2 < listed.length := fun h => absurd ((hlisted.lt_length_iff 2).mp h) (by decide)
    omega
  · exact String.toList_inj.mp (hpair.text_eq.trans (by decide +kernel))

end PeCoff.DebugInfo.Symbol
