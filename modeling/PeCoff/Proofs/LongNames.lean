import Mathlib
import PeCoff.Proofs.Build
import PeCoff.Proofs.FileStrings
import PeCoff.Proofs.Machine.Payload
import PeCoff.Proofs.Utf8
import PeCoff.Report.Document

/-!
# Names in the string table

A long name stands in the string table, and its place stands where a short name would be: in decimal
after a slash in a section header, as a number in a symbol. The name of a section is followed in the
file for up to 4096 bytes; that of a symbol is followed in the table, which is cut off at its
declared size or at the end of the file. The main statement is `names_of_place`: both ways lead to
one name when it ends inside the table. A section whose place is not in the table is called by the
place, and so is a symbol, except when the table ends at the place: then the symbol has no name.
-/

namespace PeCoff

namespace Text

/-- A character up to 127 is stored in one byte. -/
lemma toUtf8_ofList_of_le {cs : List Char} (h : ∀ c ∈ cs, c.toNat ≤ 0x7F) :
    toUtf8 (.ofList cs) = cs.map Char.toUInt8 := by
  rw [toUtf8_eq, String.toList_ofList]
  induction cs with
  | nil => rfl
  | cons c cs ih =>
    have hc : c.val.toNat ≤ 0x7F := h c List.mem_cons_self
    rw [List.flatMap_cons, List.map_cons, ih fun c hc => h c (List.mem_cons_of_mem _ hc),
      String.utf8EncodeChar, if_pos hc]
    rfl

end Text

namespace SectionHeader

variable {s : SectionHeader} {ds : List Char}

/-- The digits have code points in a row. -/
lemma toNat_of_isDigit {d : Char} (h : d.isDigit) : 48 ≤ d.toNat ∧ d.toNat ≤ 57 := by
  simpa [Char.isDigit, UInt32.le_iff_toNat_le] using h

/-- A digit fits into a byte. -/
lemma toNat_toUInt8 {d : Char} (h : d.isDigit) : d.toUInt8.toNat = d.toNat := by
  obtain ⟨-, hhigh⟩ := toNat_of_isDigit h
  exact UInt8.toNat_ofNat_of_lt (show d.toNat < 256 by omega)

/-- A digit as a byte is a digit. -/
lemma isDigit_toUInt8 {d : Char} (h : d.isDigit) : isDigit d.toUInt8 := by
  simp only [isDigit, Bool.and_eq_true, decide_eq_true_eq, UInt8.le_iff_toNat_le, toNat_toUInt8 h]
  exact toNat_of_isDigit h

/-- The number that a stored digit stands for. -/
lemma digit_toUInt8 {d : Char} (h : d.isDigit) :
    (d.toUInt8 - 48).toUInt32 = UInt32.ofNat (d.toNat - 48) := by
  obtain ⟨hlow, hhigh⟩ := toNat_of_isDigit h
  have hle : (48 : UInt8) ≤ d.toUInt8 := by
    rw [UInt8.le_iff_toNat_le, toNat_toUInt8 h]
    exact hlow
  apply UInt32.toNat_inj.mp
  rw [UInt8.toNat_toUInt32, UInt8.toNat_sub_of_le _ _ hle, toNat_toUInt8 h]
  exact (UInt32.toNat_ofNat_of_lt' (show d.toNat - 48 < 2 ^ 32 by omega)).symm

/-- Stored digits are read as the number that they write, up to 32 bits. -/
lemma foldl_digits (h : ∀ d ∈ ds, d.isDigit) (n : Nat) :
    (ds.map Char.toUInt8).foldl (fun n d => n * 10 + (d - 48).toUInt32) (UInt32.ofNat n) =
      UInt32.ofNat (Nat.ofDigitChars 10 ds n) := by
  induction ds generalizing n with
  | nil => rfl
  | cons d ds ih =>
    have hstep : UInt32.ofNat n * 10 + (d.toUInt8 - 48).toUInt32 =
        UInt32.ofNat (10 * n + (d.toNat - '0'.toNat)) := by
      rw [digit_toUInt8 (h d List.mem_cons_self), Nat.mul_comm, UInt32.ofNat_add, UInt32.ofNat_mul]
      rfl
    rw [List.map_cons, List.foldl_cons, Nat.ofDigitChars_cons, hstep]
    exact ih (fun d hd => h d (List.mem_cons_of_mem _ hd)) _

/-- A place is written in decimal digits. -/
lemma isDigit_of_mem_place {o : Nat} {d : Char} (h : d ∈ Nat.toDigits 10 o) : d.isDigit :=
  Nat.isDigit_of_mem_toDigits (by decide) (by decide) h

/-- The stored name that refers to a place. -/
lemma toUtf8_place (o : Nat) :
    Text.toUtf8 s!"/{o}" = 47 :: (Nat.toDigits 10 o).map Char.toUInt8 := by
  have hplace : s!"/{o}" = .ofList ('/' :: Nat.toDigits 10 o) := by
    rw [Nat.toString_eq_ofList_toDigits, String.ofList_cons]
    rfl
  rw [hplace, Text.toUtf8_ofList_of_le]
  · rfl
  · rintro d (_ | ⟨_, hd⟩)
    · decide
    · obtain ⟨-, hhigh⟩ := toNat_of_isDigit (isDigit_of_mem_place hd)
      omega

/-- A section that is named after a place refers to it. -/
lemma longNameOffset_of_rawName {o : UInt32} (h : s.rawName = Text.toUtf8 s!"/{o.toNat}") :
    s.longNameOffset = some o := by
  have hall : ((Nat.toDigits 10 o.toNat).map Char.toUInt8).takeWhile isDigit =
      (Nat.toDigits 10 o.toNat).map Char.toUInt8 := by
    rw [List.takeWhile_eq_self_iff]
    intro b hb
    obtain ⟨d, hd, rfl⟩ := List.mem_map.mp hb
    exact isDigit_toUInt8 (isDigit_of_mem_place hd)
  have hvalue := foldl_digits (fun _ => isDigit_of_mem_place (o := o.toNat)) 0
  rw [Nat.ofDigitChars_ten_toDigits, UInt32.ofNat_toNat] at hvalue
  rw [longNameOffset, h, toUtf8_place]
  simp only [hall]
  exact congrArg some hvalue

/-- A name of at most eight bytes fits into a section header. -/
lemma exists_rawName {bs : Bytes} (hlength : bs.length ≤ 8) (hbs : ∀ b ∈ bs, b ≠ 0) :
    ∃ s : SectionHeader, s.rawName = bs := by
  have hname : (bs ++ List.replicate (8 - bs.length) 0).toArray.size = 8 := by
    rw [List.size_toArray, List.length_append, List.length_replicate, Nat.add_sub_cancel' hlength]
  refine ⟨{ layout.read fun _ => 0 with name := ⟨_, hname⟩ }, ?_⟩
  have hrest : (List.replicate (8 - bs.length) (0 : UInt8)).takeWhile (· != 0) = [] :=
    by simp
  rw [rawName, Vector.toList_mk, List.toList_toArray, Bytes.untilZero,
    List.takeWhile_append_of_pos fun b hb => by simpa using hbs b hb, hrest, List.append_nil]

/-- A place of at most seven digits fits into a section header. -/
lemma exists_rawName_place {o : Nat} (h : o < 10000000) :
    ∃ s : SectionHeader, s.rawName = Text.toUtf8 s!"/{o}" := by
  rw [toUtf8_place]
  apply exists_rawName
  · have hdigits : (Nat.toDigits 10 o).length ≤ 7 :=
      (Nat.length_toDigits_le_iff (by decide) (by decide)).mpr h
    rw [List.length_cons, List.length_map]
    omega
  · rintro b (_ | ⟨_, hb⟩)
    · decide
    · obtain ⟨d, hd, rfl⟩ := List.mem_map.mp hb
      have hdigit := isDigit_of_mem_place hd
      rw [Ne, ← UInt8.toNat_inj, toNat_toUInt8 hdigit]
      exact Nat.ne_of_gt (Nat.lt_of_lt_of_le (by decide) (toNat_of_isDigit hdigit).1)

end SectionHeader

namespace Executable

/-- The string table, which starts with its own size. It is cut off at that size or at the end of
the file. -/
def strings (e : Executable) : Option Bytes := do
  let offset ← e.stringTableOffset
  let declared ← e.image.record? .u32 offset
  return e.image.clipped offset declared.toNat

/-- The name of a symbol of the image. -/
def symbolName (e : Executable) (y : DebugInfo.Symbol) : String :=
  y.resolveName (e.strings.map .ofList)

/-- The symbols that the symbol table lists. -/
def symbols (e : Executable) : List DebugInfo.Symbol :=
  let h := e.coffHeader
  if h.hasSymbols then
    match e.image.read h.pointerToSymbolTable.toNat
        (h.numberOfSymbols.toNat * CoffHeader.symbolSize) with
    | none => []
    | some records => (DebugInfo.Symbol.listing h.numberOfSymbols.toNat 0 records).1.map Prod.snd
  else
    []

/-- A report lists each symbol by its name in the string table of the image. -/
lemma symbols_basic_eq (e : Executable) {records : Bytes} (h : e.coffHeader.hasSymbols)
    (hrecords : e.image.read e.coffHeader.pointerToSymbolTable.toNat
      (e.coffHeader.numberOfSymbols.toNat * CoffHeader.symbolSize) = some records) :
    Report.symbols .basic e =
      let count := e.coffHeader.numberOfSymbols.toNat
      let (listed, missing) := DebugInfo.Symbol.listing count 0 records
      Report.symbolTableOf count (listed.map fun (index, y) =>
        Report.symbolLineOf (DebugInfo.Symbol.sectionLabel y.sectionNumber e.sections)
          (e.symbolName y) index y) missing := by
  rw [Report.symbols, if_pos h, hrecords]
  rfl

variable {e : Executable} {table : Nat} {declared o : UInt32} {s : SectionHeader}
  {y : DebugInfo.Symbol}

/-- A section whose name refers to a place of the string table has the long name there, if the place
lies in the table and in the file, and else the reference itself for a name. -/
lemma sectionName_eq (htable : e.stringTableOffset = some table)
    (hdeclared : e.image.record? .u32 table = some declared)
    (hs : s.rawName = Text.toUtf8 s!"/{o.toNat}") :
    e.sectionName s =
      if o < declared ∧ table + o.toNat < e.image.size then
        .long s!"/{o.toNat}" (Text.ofUtf8 (Bytes.untilZero
          ((e.image.toList.drop (table + o.toNat)).take Image.maxString)))
      else .short s!"/{o.toNat}" := by
  have hshort : s.shortName = s!"/{o.toNat}" := by
    rw [SectionHeader.shortName, hs, Text.ofUtf8_toUtf8]
  rw [sectionName, SectionHeader.resolveName, SectionHeader.longName, htable,
    SectionHeader.longNameOffset_of_rawName hs, hshort]
  simp only [Option.bind_eq_bind, Option.bind_some, hdeclared, Image.stringAt, Image.clipped_eq]
  by_cases hinside : o < declared
  · by_cases hsize : table + o.toNat < e.image.size
    · simp [hinside, hsize]
    · simp [hinside, hsize]
  · simp [hinside]

/-- A symbol whose name refers to a place of the string table has the name there, if the place does
not lie past the end of the table or of the file, and else the reference itself for a name. -/
lemma symbolName_eq (htable : e.stringTableOffset = some table)
    (hdeclared : e.image.record? .u32 table = some declared) (hy : y.name = .long o) :
    e.symbolName y =
      if o.toNat ≤ min declared.toNat (e.image.size - table) then
        Text.ofUtf8 (Bytes.untilZero
          ((e.image.toList.drop (table + o.toNat)).take (declared.toNat - o.toNat)))
      else s!"/{o.toNat}" := by
  have hstrings : e.strings = some ((e.image.toList.drop table).take declared.toNat) := by
    simp only [strings, htable, Option.bind_eq_bind, Option.bind_some, hdeclared,
      Image.clipped_eq, Option.pure_def]
  rw [symbolName, hstrings, Option.map_some, DebugInfo.Symbol.resolveName, hy]
  simp only [Image.size_ofList, Image.untilZero_ofList, List.length_take, List.length_drop,
    Image.length_toList, List.drop_take, List.drop_drop]

/-- A section and a symbol that refer to one place in the string table have one name when it ends in
the table and after at most 4095 bytes. When the place is not in the table, the section is called by
the place, and so is the symbol, unless the table ends there: then its name is empty. Each place of
at most seven digits can be referred to by a section. -/
theorem names_of_place (htable : e.stringTableOffset = some table)
    (hdeclared : e.image.record? .u32 table = some declared) (ho : o.toNat < 10000000) :
    (∃ s : SectionHeader, s.rawName = Text.toUtf8 s!"/{o.toNat}") ∧
    ∀ s y, s.rawName = Text.toUtf8 s!"/{o.toNat}" → y.name = .long o →
      ((∃ k ≤ 4095, o.toNat + k < declared.toNat ∧
          e.image.toList[table + o.toNat + k]? = some 0) →
        e.sectionName s = .long s!"/{o.toNat}" (e.symbolName y) ∧
        e.symbolName y = Text.ofUtf8 (Bytes.untilZero (e.image.toList.drop (table + o.toNat)))) ∧
      (declared ≤ o ∨ e.image.size ≤ table + o.toNat →
        e.sectionName s = .short s!"/{o.toNat}" ∧
        e.symbolName y =
          if o.toNat = min declared.toNat (e.image.size - table) then "" else s!"/{o.toNat}") := by
  refine ⟨SectionHeader.exists_rawName_place ho, fun s y hs hy => ?_⟩
  rw [sectionName_eq htable hdeclared hs, symbolName_eq htable hdeclared hy]
  constructor
  · rintro ⟨k, hk, hend, hzero⟩
    have hsize : table + o.toNat + k < e.image.size := by
      rw [← Image.length_toList]
      exact (List.getElem?_eq_some_iff.mp hzero).1
    -- Both ways cut the rest of the file, each at its own length, but behind the zero.
    have hcut {n : Nat} (hn : k < n) :
        Bytes.untilZero ((e.image.toList.drop (table + o.toNat)).take n) =
          Bytes.untilZero (e.image.toList.drop (table + o.toNat)) :=
      Bytes.untilZero_take (k := k) (by rw [List.getElem?_drop, hzero]) hn
    have hinside : o < declared ∧ table + o.toNat < e.image.size :=
      ⟨UInt32.lt_iff_toNat_lt.mpr (by omega), by omega⟩
    rw [if_pos hinside, if_pos (by omega), hcut (n := Image.maxString) (Nat.lt_succ_of_le hk),
      hcut (by omega)]
    exact ⟨rfl, rfl⟩
  · intro houtside
    rw [UInt32.le_iff_toNat_le] at houtside
    have hoffset : ¬ (o < declared ∧ table + o.toNat < e.image.size) := by
      rw [UInt32.lt_iff_toNat_lt]
      omega
    refine ⟨if_neg hoffset, ?_⟩
    by_cases hend : o.toNat = min declared.toNat (e.image.size - table)
    · have hnil : (e.image.toList.drop (table + o.toNat)).take (declared.toNat - o.toNat) = [] := by
        rw [List.take_eq_nil_iff, List.drop_eq_nil_iff, Image.length_toList]
        omega
      rw [if_pos (Nat.le_of_eq hend), if_pos hend, hnil]
      exact Text.ofUtf8_toUtf8 ""
    · rw [if_neg (by omega), if_neg hend]

/-- A file whose string table holds the name `Longer` at place 4 and ends at place 11. Two sections
and two symbols refer to these places. -/
def namesImage : Image :=
  let dosHeader : Bytes :=
    Layout.u16.write DosHeader.signature ++ List.replicate 58 0 ++ Layout.u32.write 64
  let coffHeader := { CoffHeader.layout.read fun _ => 0 with
    numberOfSections := 2
    pointerToSymbolTable := 168
    numberOfSymbols := 2 }
  let header (name : String) : Bytes :=
    let bs := Text.toUtf8 name
    bs ++ List.replicate (40 - bs.length) 0
  let symbol (o : UInt32) : Bytes :=
    List.replicate 4 0 ++ Layout.u32.write o ++ List.replicate 10 0
  .ofList <| dosHeader ++ [80, 69, 0, 0] ++ CoffHeader.layout.write coffHeader
    ++ header "/4" ++ header "/11" ++ symbol 4 ++ symbol 11
    ++ Layout.u32.write 11 ++ Text.toUtf8 "Longer" ++ [0]

/-- The sample is decoded, and its string table lies where the statements need it. -/
lemma exists_parse_namesImage : ∃ e, parse namesImage = .ok e ∧
    (e.stringTableOffset = some 204 ∧ e.image.record? .u32 204 = some 11 ∧ e.image.size = 215) ∧
    ((∃ s ∈ e.sections, s.rawName = Text.toUtf8 "/4") ∧
      ∃ s ∈ e.sections, s.rawName = Text.toUtf8 "/11") ∧
    e.symbols.map (·.name) = [.long 4, .long 11] ∧
    e.image.toList[214]? = some 0 ∧
    Bytes.untilZero (e.image.toList.drop 208) = Text.toUtf8 "Longer" :=
  Build.exists_of_any (by decide +kernel)

/-- The name at place 4 is the same for a section and for a symbol. -/
theorem names_of_place_longer : ∃ e s y, parse namesImage = .ok e ∧
    s ∈ e.sections ∧ s.rawName = Text.toUtf8 "/4" ∧ y ∈ e.symbols ∧ y.name = .long 4 ∧
    e.sectionName s = .long "/4" "Longer" ∧ e.symbolName y = "Longer" := by
  obtain ⟨e, he, ⟨htable, hdeclared, -⟩, ⟨⟨s, hs, hname⟩, -⟩, hsymbols, hzero, hlonger⟩ :=
    exists_parse_namesImage
  obtain ⟨y, hy, hplace⟩ : ∃ y ∈ e.symbols, y.name = .long 4 :=
    List.mem_map.mp (by rw [hsymbols]; exact List.mem_cons_self)
  obtain ⟨-, hnames⟩ := names_of_place (o := 4) htable hdeclared (by decide)
  obtain ⟨hsection, hsymbol⟩ := (hnames s y hname hplace).1 ⟨6, by decide, by decide, hzero⟩
  have hsymbol : e.symbolName y = "Longer" := by
    rw [hsymbol, ← Text.ofUtf8_toUtf8 "Longer", ← hlonger]
    rfl
  exact ⟨e, s, y, he, hs, hname, hy, hplace, by rw [hsection, hsymbol]; rfl, hsymbol⟩

/-- Place 11 is the size of the table and the end of the file. A section that refers to it is called
by the place, but a symbol that refers to it has the empty name. -/
theorem exists_names_ne : ∃ e s y, parse namesImage = .ok e ∧
    (e.stringTableOffset = some 204 ∧ e.image.record? .u32 204 = some 11 ∧ e.image.size = 215) ∧
    s ∈ e.sections ∧ s.rawName = Text.toUtf8 "/11" ∧ y ∈ e.symbols ∧ y.name = .long 11 ∧
    e.sectionName s = .short "/11" ∧ e.symbolName y = "" := by
  obtain ⟨e, he, hfile, ⟨-, s, hs, hname⟩, hsymbols, -⟩ := exists_parse_namesImage
  obtain ⟨htable, hdeclared, hsize⟩ := hfile
  obtain ⟨y, hy, hplace⟩ : ∃ y ∈ e.symbols, y.name = .long 11 :=
    List.mem_map.mp (by rw [hsymbols]; exact List.mem_cons_of_mem _ List.mem_cons_self)
  refine ⟨e, s, y, he, ⟨htable, hdeclared, hsize⟩, hs, hname, hy, hplace, ?_, ?_⟩
  · rw [sectionName_eq (o := 11) htable hdeclared hname, if_neg (by simp)]
    rfl
  · rw [symbolName_eq htable hdeclared hplace, hsize, if_pos (by decide)]
    exact Text.ofUtf8_toUtf8 ""

end Executable

end PeCoff
