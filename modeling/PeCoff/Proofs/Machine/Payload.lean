import Mathlib
import PeCoff.Proofs.Machine.Headers
import PeCoff.Proofs.Machine.Text
import PeCoff.Report.Payload

/-!
# Payloads on a machine

The debug information and the symbol tables of a report. A symbol table is followed record by
record, and the auxiliary records of a symbol may lead past its end. The main statements are
`coffDebug_eq`, `codeView_eq`, `framePointers_eq`, `symbolTable_eq` and `stabs_eq`.
-/

namespace PeCoff.Machine

open Text DebugInfo Report

/-! ## Symbols -/

/-- What is said about the section of a symbol. -/
def sectionLabel (number : Int16) (sections : List SectionHeader) : Step String := do
  let n := number.toInt
  if n = 0 then return "UNDEF"
  else if n = -1 then return "ABS"
  else if n = -2 then return "DEBUG"
  else if n < 0 then return toString n
  else
    match sections[(← sub n.toNat 1)]? with
    | some s => shortName s
    | none => return toString n

/-- The label of a section number is found without a fault. -/
lemma sectionLabel_eq (number : Int16) (sections : List SectionHeader) :
    sectionLabel number sections = .ok (Symbol.sectionLabel number sections) := by
  rw [sectionLabel, Symbol.sectionLabel]
  by_cases hzero : number.toInt = 0
  · rw [if_pos hzero, if_pos hzero]
    rfl
  rw [if_neg hzero, if_neg hzero]
  split
  · rfl
  split
  · rfl
  split
  · rfl
  · next hpositive =>
    rw [sub_eq (by omega)]
    simp only [ok_bind]
    cases sections[number.toInt.toNat - 1]? with
    | none => rfl
    | some s => exact shortName_eq s

/-- The name that eight bytes hold. -/
def symbolName (bs : Bytes) : Step SymbolName := do
  if (← slice bs 0 4) = [0, 0, 0, 0] then
    return .long (← fetch .u32 bs 4)
  else
    return .short (ofUtf8 (← cut (← slice bs 0 8)))

/-- The symbol at the front of a byte string, when all of it is there. -/
def symbolRecord (bs : Bytes) : Step (Option Symbol) :=
  andThen (slice? bs 0 Symbol.layout.size) fun record => do
    let (name, value, sectionNumber, symbolType, storageClass, auxiliaryRecords) ←
      fetch Symbol.layout record 0
    return some {
      name := ← symbolName name.toList
      value
      sectionNumber := sectionNumber.toInt16
      symbolType
      storageClass
      auxiliaryRecords }

/-- The eight bytes of a symbol's name are told apart without a fault. -/
lemma symbolName_eq {bs : Bytes} (h : bs.length = 8) :
    symbolName bs = .ok (Symbol.nameOf bs) := by
  have hu32 : Layout.u32.size = 4 := rfl
  rw [symbolName, Symbol.nameOf, slice_eq (by omega) (by omega), slice_eq (by omega) (by omega),
    List.drop_zero, List.drop_zero, List.take_of_length_le (Nat.le_of_eq h),
    fetch_eq (by omega) (by omega)]
  simp only [ok_bind, cut_eq]
  split <;> rfl

/-- A symbol is decoded without a fault. -/
lemma symbolRecord_eq (bs : Bytes) : symbolRecord bs = .ok (Symbol.decode? bs) := by
  have hsize : Symbol.layout.size = 18 := by decide
  rw [symbolRecord, Symbol.decode?, Layout.decode?_eq, hsize]
  by_cases h : 18 ≤ bs.length
  · have hlength : ((bs.take 18).drop 0).length = 18 := by
      rw [List.length_drop, List.length_take]
      omega
    rw [slice?_eq (Nat.zero_le _) h, andThen, fetch_eq (by omega) (by omega), if_pos h,
      List.drop_zero, List.drop_zero, Symbol.layout.read_take bs (Nat.le_of_eq hsize)]
    simp only [ok_bind]
    rw [symbolName_eq (by simp)]
    rfl
  · have hnone : slice? bs 0 18 = none := if_neg fun hrange => h hrange.2
    rw [hnone, if_neg h]
    rfl

/-- The name of a symbol, looked up in a string table. -/
def resolveName (s : Symbol) (strings : Option Bytes) : Step String :=
  match s.name with
  | .short name => return name
  | .long offset =>
    match strings.bind fun table => slice? table offset.toNat table.length with
    | some rest => return ofUtf8 (← cut rest)
    | none => return s!"/{offset.toNat}"

/-- The name of a symbol is looked up without a fault. -/
lemma resolveName_eq (s : Symbol) (strings : Option Bytes) :
    resolveName s strings = .ok (s.resolveName (strings.map Image.ofList)) := by
  rw [resolveName, Symbol.resolveName]
  cases s.name with
  | short name => rfl
  | long offset =>
    cases strings with
    | none => rfl
    | some table =>
      simp only [Option.bind_some, Option.map_some, slice?_length_eq, Image.size_ofList,
        Image.untilZero_ofList]
      by_cases h : offset.toNat ≤ table.length
      · simp only [if_pos h, cut_eq]
        rfl
      · simp only [if_neg h]
        rfl

/-! ## Symbol tables -/

/-- The symbol with a number. The auxiliary records after it have numbers, too. -/
def symbolTurn (symbols : Bytes) (count : Nat) : Nat × List (Nat × Symbol) →
    Step ((Nat × List (Nat × Symbol)) ⊕ (List (Nat × Symbol) × Option Nat)) :=
  fun (number, found) => do
    if number < count then
      let offset ← mul 64 number Symbol.layout.size
      match ← andThen (slice? symbols offset symbols.length) symbolRecord with
      | none => return .inr (found, some number)
      | some s =>
        let next ← add 64 number (← add 64 1 s.auxiliaryRecords.toNat)
        return .inl (next, found ++ [(number, s)])
    else
      return .inr (found, none)

/-- The symbols of a table and the number of a record that it lacks. -/
def listing (symbols : Bytes) (count : Nat) : Step (List (Nat × Symbol) × Option Nat) :=
  loop (symbolTurn symbols count) (0, [])

/-- What a table holds from a number on, after what was found before it. -/
def listingResult (symbols : Bytes) (count : Nat) :
    Nat × List (Nat × Symbol) → List (Nat × Symbol) × Option Nat := fun (number, found) =>
  let rest := Symbol.listing count number (symbols.drop (number * Symbol.layout.size))
  (found ++ rest.1, rest.2)

/-- The symbol behind some bytes is decoded without a fault. -/
lemma symbolRecord_slice?_eq (symbols : Bytes) (offset : Nat) :
    andThen (slice? symbols offset symbols.length) symbolRecord =
      .ok (Symbol.decode? (symbols.drop offset)) := by
  rw [slice?_length_eq]
  by_cases h : offset ≤ symbols.length
  · rw [if_pos h]
    exact symbolRecord_eq _
  · rw [if_neg h, List.drop_of_length_le (Nat.le_of_not_le h)]
    rfl

/-- The symbols of a table are listed without a fault, and their indices fit. -/
lemma listing_eq (symbols : Bytes) {count : Nat} (hcount : count < 2 ^ 32) :
    listing symbols count = .ok (Symbol.listing count 0 symbols) := by
  have hsize : Symbol.layout.size = 18 := by decide
  have hstart : Symbol.listing count 0 symbols = listingResult symbols count (0, []) := by
    simp [listingResult]
  rw [listing, hstart]
  refine loop_eq (fun s => s.1 < 2 ^ 32 + 2 ^ 8) (fun s => 2 ^ 33 - s.1) _ ?_ (by simp) (by simp)
  rintro ⟨number, found⟩ hnumber
  rw [symbolTurn, listingResult, Symbol.listing]
  by_cases hless : number < count
  · rw [if_pos hless, if_pos hless, hsize, mul_eq (by omega)]
    simp only [ok_bind, symbolRecord_slice?_eq]
    cases Symbol.decode? (symbols.drop (number * 18)) with
    | none =>
      left
      simp
    | some s =>
      -- The next number counts the symbol itself and its auxiliary records.
      have hrecords := s.auxiliaryRecords.toNat_lt
      simp only
      rw [add_eq (by omega)]
      simp only [ok_bind]
      rw [add_eq (by omega)]
      refine .inr ⟨(number + (1 + s.auxiliaryRecords.toNat), found ++ [(number, s)]), rfl, ?_, ?_,
        ?_⟩
      · simp only
        omega
      · simp only
        omega
      · simp only [listingResult, hsize, List.drop_drop, Nat.add_mul number,
          Nat.mul_comm (1 + s.auxiliaryRecords.toNat)]
        simp
  · rw [if_neg hless, if_neg hless]
    left
    simp

/-- The line of a symbol. -/
def symbolLine (strings : Option Bytes) (sections : List SectionHeader) (number : Nat)
    (s : Symbol) : Step String := do
  let label ← sectionLabel s.sectionNumber sections
  let name ← resolveName s strings
  return symbolLineOf label name number s

/-- A symbol table. -/
def symbolTable (symbols : Bytes) (count : UInt32) (strings : Option Bytes)
    (sections : List SectionHeader) : Step String := do
  let (listed, missing) ← listing symbols count.toNat
  let rows ← listed.mapM fun (number, s) => symbolLine strings sections number s
  return symbolTableOf count.toNat rows missing

/-- A symbol table is printed without a fault. -/
theorem symbolTable_eq (symbols : Bytes) (count : UInt32) (strings : Option Bytes)
    (sections : List SectionHeader) :
    symbolTable symbols count strings sections =
      .ok (Report.symbolTable symbols count strings sections) := by
  have hline : ∀ p : Nat × Symbol, symbolLine strings sections p.1 p.2 =
      .ok (Report.symbolLine (strings.map Image.ofList) sections p.1 p.2) := by
    intro p
    rw [symbolLine, sectionLabel_eq, resolveName_eq]
    rfl
  rw [symbolTable, listing_eq symbols count.toNat_lt]
  simp only [ok_bind]
  rw [mapM_eq fun p _ => hline p]
  rfl

/-- COFF debug information: its header, then its symbol table. -/
def coffDebug (data : Option Bytes) (sections : List SectionHeader) : Step String := do
  match ← andThen data (parse SymbolsHeader.layout) with
  | none => return line "    Can't grab COFF debug information"
  | some h =>
    let bs := data.getD []
    let start := h.firstSymbol.toNat
    let length := (checkedMul 64 h.numberOfSymbols.toNat Symbol.layout.size).getD (2 ^ 64 - 1)
    let table ←
      match (checkedAdd 64 start length).bind (slice? bs start) with
      | none => pure (line "    Can't grab COFF symbols")
      | some symbols =>
        let strings := slice? bs (← add 64 start length) bs.length
        symbolTable symbols h.numberOfSymbols strings sections
    return symbolsHeader h ++ table

/-- A range is given by its end or by its length. -/
lemma slice?_add_eq (bs : Bytes) (start length : Nat) :
    slice? bs start (start + length) = Bytes.slice? bs start length := by
  have hpart : (bs.take (start + length)).drop start = (bs.drop start).take length := by
    rw [List.drop_take, Nat.add_sub_cancel_left]
  rw [slice?, Bytes.slice?, hpart]
  simp only [List.length_take, List.length_drop]
  by_cases h : start + length ≤ bs.length
  · rw [if_pos ⟨Nat.le_add_right _ _, h⟩, if_pos (by omega)]
  · rw [if_neg fun hrange => h hrange.2]
    by_cases hempty : length = 0
    · rw [if_neg (by omega)]
    · rw [if_neg (by omega)]

/-- A range that is there ends within the bytes. -/
lemma le_of_slice?_eq_some {bs found : Bytes} {start length : Nat}
    (h : Bytes.slice? bs start length = some found) : start + length ≤ bs.length := by
  rw [← slice?_add_eq, slice?] at h
  split at h
  · next hrange => exact hrange.2
  · cases h

/-- COFF debug information is printed without a fault. -/
theorem coffDebug_eq {data : Option Bytes} (h : ∀ bs, data = some bs → bs.length < 2 ^ 64)
    (sections : List SectionHeader) :
    coffDebug data sections = .ok (Report.coffDebug data sections) := by
  have hparse : andThen data (parse SymbolsHeader.layout) =
      .ok (data.bind SymbolsHeader.layout.decode?) :=
    andThen_eq fun bs hbs => parse_eq (h bs hbs)
  rw [coffDebug, hparse]
  unfold Report.coffDebug
  simp only [ok_bind]
  cases data with
  | none => rfl
  | some bs =>
    simp only [Option.bind_some, Option.getD_some]
    cases SymbolsHeader.layout.decode? bs with
    | none => rfl
    | some header =>
      have hstart := header.firstSymbol.toNat_lt
      have hcount := header.numberOfSymbols.toNat_lt
      have hsize : Symbol.layout.size = 18 := by decide
      simp only [hsize]
      -- Neither the product of a count and 18 nor its sum with an offset outgrows a word.
      rw [checkedMul_eq (by omega), Option.getD_some, checkedAdd_eq (by omega), Option.bind_some,
        slice?_add_eq]
      cases hfound : Bytes.slice? bs header.firstSymbol.toNat
          (header.numberOfSymbols.toNat * 18) with
      | none => rfl
      | some symbols =>
        have hend := le_of_slice?_eq_some hfound
        simp only
        rw [add_eq (by omega)]
        simp only [ok_bind, slice?_length_eq, if_pos hend, symbolTable_eq, pure_eq]

/-! ## CodeView records -/

/-- The text that fills a byte string up to its first zero. -/
def databasePath (bs : Bytes) : Step String := do
  return ofUtf8 (← cut bs)

/-- A database with a unique identifier. -/
def rsds (bs : Bytes) : Step (Option CodeView) := do
  match ← recordIn (Layout.u8.vector 16) bs 4, ← recordIn .u32 bs 20 with
  | some identifier, some age =>
    return some (.rsds identifier age (← databasePath (← slice bs 24 bs.length)))
  | _, _ => return none

/-- A database with a time stamp for an identifier. -/
def nb10 (bs : Bytes) : Step (Option CodeView) := do
  match ← recordIn .u32 bs 4, ← recordIn .u32 bs 8, ← recordIn .u32 bs 12 with
  | some offset, some stamp, some age =>
    andThen (slice? bs 16 bs.length) fun rest => do
      return some (.nb10 offset stamp age (← databasePath rest))
  | _, _, _ => return none

/-- The record held by a byte string, unless it is too short for its kind. -/
def codeViewRecord (bs : Bytes) : Step (Option CodeView) := do
  match ← recordIn .u32 bs 0 with
  | none => return none
  | some signature =>
    if signature = CodeView.rsdsSignature then rsds bs
    else if signature = CodeView.nb10Signature then nb10 bs
    else return some (.other (← fetch (Layout.u8.vector 4) bs 0))

/-- The path of a database is cut and decoded without a fault. -/
lemma databasePath_eq (bs : Bytes) : databasePath bs = .ok (CodeView.path bs) := by
  rw [databasePath, cut_eq]
  rfl

/-- A row of bytes has as many bytes as its length. -/
lemma size_bytes (n : Nat) : (Layout.u8.vector n).size = n := by
  rw [Layout.size_vector]
  exact Nat.mul_one n

/-- A number behind some bytes is decoded without a fault. -/
lemma recordIn_u32_eq (bs : Bytes) {start : Nat} (h : start < 2 ^ 32) :
    recordIn .u32 bs start = .ok (Layout.u32.decode? (bs.drop start)) := by
  have hsize : Layout.u32.size = 4 := rfl
  exact recordIn_eq (by decide) (by omega)

/-- When a field is there, so are the bytes up to its end. -/
lemma le_of_decode?_u32 {bs : Bytes} {start : Nat} {n : UInt32}
    (h : Layout.u32.decode? (bs.drop start) = some n) : start + 4 ≤ bs.length := by
  have hend := Layout.size_le_of_decode? _ h
  rw [List.length_drop, show Layout.u32.size = 4 from rfl] at hend
  omega

/-- A record with an identifier is decoded without a fault. -/
lemma rsds_eq {bs : Bytes} {signature : UInt32} (h : Layout.u32.decode? bs = some signature) :
    rsds bs = .ok (((Layout.u32.pair <| (Layout.u8.vector 16).pair .u32).decode? bs).map
      fun p => .rsds p.2.1 p.2.2 (CodeView.path (bs.drop 24))) := by
  have hidentifier : recordIn (Layout.u8.vector 16) bs 4 =
      .ok ((Layout.u8.vector 16).decode? (bs.drop 4)) :=
    recordIn_eq (by rw [size_bytes]; decide) (by rw [size_bytes]; decide)
  rw [rsds, hidentifier, recordIn_u32_eq bs (by decide), decode?_pair, h, Option.bind_some,
    decode?_pair, size_bytes, List.drop_drop, show Layout.u32.size = 4 from rfl]
  simp only [ok_bind]
  cases (Layout.u8.vector 16).decode? (bs.drop 4) with
  | none => rfl
  | some identifier =>
    cases hage : Layout.u32.decode? (bs.drop 20) with
    | none => rfl
    | some age =>
      simp only [slice_eq (le_of_decode?_u32 hage) (Nat.le_refl _), List.take_length, ok_bind,
        databasePath_eq]
      rfl

/-- A record with an offset is decoded without a fault. -/
lemma nb10_eq {bs : Bytes} {signature : UInt32} (h : Layout.u32.decode? bs = some signature) :
    nb10 bs = .ok
      (((Layout.u32.pair <| Layout.u32.pair <| Layout.u32.pair .u32).decode? bs).map
        fun p => .nb10 p.2.1 p.2.2.1 p.2.2.2 (CodeView.path (bs.drop 16))) := by
  rw [nb10, recordIn_u32_eq bs (by decide), recordIn_u32_eq bs (by decide),
    recordIn_u32_eq bs (by decide), decode?_pair, h, Option.bind_some, decode?_pair, decode?_pair,
    show Layout.u32.size = 4 from rfl, List.drop_drop, List.drop_drop]
  simp only [ok_bind]
  cases Layout.u32.decode? (bs.drop 4) with
  | none => rfl
  | some offset =>
    rw [Option.bind_some]
    cases Layout.u32.decode? (bs.drop (4 + 4)) with
    | none => rfl
    | some stamp =>
      rw [Option.bind_some]
      cases hage : Layout.u32.decode? (bs.drop (4 + (4 + 4))) with
      | none => rfl
      | some age =>
        have hend := le_of_decode?_u32 hage
        simp only [andThen, slice?_length_eq, if_pos hend, databasePath_eq]
        rfl

/-- A code view record is decoded without a fault, whatever its signature. -/
lemma codeViewRecord_eq {bs : Bytes} (hbs : bs.length < 2 ^ 64) :
    codeViewRecord bs = .ok (CodeView.decode? bs) := by
  rw [codeViewRecord, recordIn_u32_eq bs (by decide), CodeView.decode?, List.drop_zero]
  simp only [ok_bind]
  cases hsignature : Layout.u32.decode? bs with
  | none => rfl
  | some signature =>
    have hlength := Layout.size_le_of_decode? _ hsignature
    simp only [Option.bind_eq_bind, Option.bind_some]
    by_cases hrsds : signature = CodeView.rsdsSignature
    · rw [if_pos hrsds, if_pos hrsds, rsds_eq hsignature]
      cases (Layout.u32.pair <| (Layout.u8.vector 16).pair .u32).decode? bs <;> rfl
    rw [if_neg hrsds, if_neg hrsds]
    by_cases hnb10 : signature = CodeView.nb10Signature
    · rw [if_pos hnb10, if_pos hnb10, nb10_eq hsignature]
      cases (Layout.u32.pair <| Layout.u32.pair <| Layout.u32.pair .u32).decode? bs <;> rfl
    · rw [if_neg hnb10, if_neg hnb10, fetch_eq hbs (by rw [size_bytes]; exact hlength),
        List.drop_zero]
      rfl

/-- A CodeView record. -/
def codeView (data : Option Bytes) : Step String :=
  match data with
  | none => return line "    Can't grab CodeView data"
  | some bs => do
    match ← codeViewRecord bs with
    | none => return line s!"    CodeView record too short ({bs.length} bytes)"
    | some (.rsds identifier age path) => return rsdsRecord identifier age path
    | some (.nb10 offset signature age path) => return nb10Record offset signature age path
    | some (.other signature) =>
      return otherRecord (← narrow signature.toList) (← hexDump "      " (some bs))

/-- A code view record is printed without a fault. -/
theorem codeView_eq {data : Option Bytes} (h : ∀ bs, data = some bs → bs.length < 2 ^ 64) :
    codeView data = .ok (Report.codeView data) := by
  cases data with
  | none => rfl
  | some bs =>
    rw [codeView, codeViewRecord_eq (h bs rfl), Report.codeView]
    simp only [ok_bind]
    cases CodeView.decode? bs with
    | none => rfl
    | some found =>
      cases found with
      | rsds identifier age path => rfl
      | nb10 offset signature age path => rfl
      | other signature =>
        simp only
        rw [narrow_eq (by simp), hexDump_eq _ h]
        rfl

/-! ## Frame pointer records -/

/-- Frame pointer records. -/
def framePointers (data : Option Bytes) : Step String :=
  match data with
  | none => return line "    Can't grab FPO data"
  | some bs => return frameRecords (← records FrameRecord.layout bs)

/-- Frame records are printed without a fault. -/
theorem framePointers_eq (data : Option Bytes) :
    framePointers data = .ok (Report.framePointers data) := by
  cases data with
  | none => rfl
  | some bs =>
    rw [framePointers, records_eq (by decide) (by decide)]
    rfl

/-! ## Entries of the `.stab` section -/

/-- The name at a place of the string section. -/
def stabName (strings : Bytes) (base offset : Nat) : Step String :=
  match (checkedAdd 64 base offset).bind fun place => slice? strings place strings.length with
  | none => return ""
  | some rest => return ofUtf8 (← cut rest)

/-- The names of entries, when the strings of their unit start at `base` and those of the next unit
at `next`. -/
def stabNames (strings : Bytes) (base next : Nat) : List Stab → Step (List String)
  | [] => return []
  | s :: rest => do
    let (base, next) :=
      if s.isUnitHeader then (next, saturatingAdd next s.value.toNat) else (base, next)
    let name ← stabName strings base s.nameOffset.toNat
    return name :: (← stabNames strings base next rest)

/-- The entries of a `.stab` section. -/
def stabs (data strings : Bytes) : Step String := do
  let entries ← records Stab.layout data
  return stabTable entries (← stabNames strings 0 0 entries)

/-- The name of a stab is looked up without an overflow. -/
lemma stabName_eq (strings : Bytes) {base offset : Nat} (h : base + offset < 2 ^ 64) :
    stabName strings base offset = .ok (Stab.nameAt (.ofList strings) (base + offset)) := by
  rw [stabName, Stab.nameAt, checkedAdd_eq h, Option.bind_some, slice?_length_eq,
    Image.untilZero_ofList]
  by_cases hplace : base + offset ≤ strings.length
  · simp only [if_pos hplace, cut_eq]
    rfl
  · rw [if_neg hplace, List.drop_of_length_le (Nat.le_of_not_le hplace)]
    simp [Bytes.untilZero, ofUtf8, Utf8.decode]

/-- The strings of a unit start far below the last word while few entries follow. -/
lemma stabNames_eq (strings : Bytes) {base next : Nat} {entries : List Stab} (hbase : base ≤ next)
    (hnext : next + (entries.length + 1) * 2 ^ 32 ≤ 2 ^ 64) :
    stabNames strings base next entries =
      .ok (Stab.names (.ofList strings) base next entries) := by
  -- The room that `hnext` leaves carries the induction: a unit moves the next base on by a number
  -- of 32 bits, and there are only so many entries left.
  induction entries generalizing base next with
  | nil => rfl
  | cons s rest ih =>
    have hoffset := s.nameOffset.toNat_lt
    have hvalue := s.value.toNat_lt
    rw [List.length_cons] at hnext
    have hsum : saturatingAdd next s.value.toNat = next + s.value.toNat := by
      rw [saturatingAdd]
      omega
    have hunit : stabNames strings next (next + s.value.toNat) rest =
        .ok (Stab.names (.ofList strings) next (next + s.value.toNat) rest) :=
      ih (Nat.le_add_right _ _) (by omega)
    have hsame : stabNames strings base next rest =
        .ok (Stab.names (.ofList strings) base next rest) := by
      have hfewer : (rest.length + 1) * 2 ^ 32 ≤ (rest.length + 1 + 1) * 2 ^ 32 :=
        Nat.mul_le_mul_right _ (Nat.le_succ _)
      exact ih hbase (Nat.le_trans (Nat.add_le_add_left hfewer next) hnext)
    rw [stabNames, Stab.names, hsum]
    by_cases hheader : s.isUnitHeader
    · simp only [if_pos hheader]
      rw [stabName_eq _ (by omega), hunit]
      rfl
    · simp only [if_neg hheader]
      rw [stabName_eq _ (by omega), hsame]
      rfl

/-- The entries of a `.stab` section are printed without a fault: the base of a unit is a sum of
fewer than `2 ^ 32` numbers of 32 bits, which fits into a word. -/
theorem stabs_eq {data : Bytes} (h : data.length < 2 ^ 32) (strings : Bytes) :
    stabs data strings = .ok (Report.stabs data strings) := by
  have hsize : Stab.layout.size = 12 := by decide
  have hcount : (Stab.layout.decodeAll data).length ≤ data.length / 12 := by
    rw [Layout.length_decodeAll, hsize]
  rw [stabs, records_eq (by decide) (by decide)]
  simp only [ok_bind]
  rw [stabNames_eq _ (Nat.le_refl _) (by omega)]
  rfl

end PeCoff.Machine
