import Mathlib
import PeCoff.Proofs.Export.Tables
import PeCoff.Proofs.Machine.Headers

/-!
# Exports on a machine

The tables of an export directory are byte strings, whose rows are accessed by number. Which indices
have a name is kept as bits of words, and `isMarked_eq` says what the words mean. The main
statements are `exports_eq` and `exportSymbols_eq`.
-/

namespace PeCoff.Machine

open PeCoff.Export

/-! ## Tables -/

/-- The three tables as byte strings, as far as they can be read. -/
structure RawTables where
  functions : Option Bytes
  names : Option Bytes
  ordinals : Option Bytes

/-- The bytes of a table of rows of a width. -/
def rawTable (reader : Reader) (address count : UInt32) (width : Nat) : Step (Option Bytes) :=
  andThen (checkedMul 64 count.toNat width) (reader address.toNat)

/-- The entry of a table of addresses. -/
def function (table : Bytes) (i : Nat) : Step UInt32 := do
  fetch .u32 table (← mul 64 i 4)

/-- The entry of a table of indices. -/
def ordinal (table : Bytes) (i : Nat) : Step Nat := do
  return (← fetch .u16 table (← mul 64 i 2)).toNat

namespace RawTables

/-- The tables of a directory. -/
def read (reader : Reader) (d : Directory) : Step RawTables := do
  let functions ← rawTable reader d.addressOfFunctions d.numberOfFunctions 4
  let names ← rawTable reader d.addressOfNames d.numberOfNames 4
  let ordinals ← rawTable reader d.addressOfNameOrdinals d.numberOfNames 2
  return { functions, names, ordinals }

/-- The index of a function and the address of a name of it, for each name. -/
def pairs (tables : RawTables) : Step (List (Nat × UInt32)) :=
  match tables.names, tables.ordinals with
  | some names, some ordinals =>
    (List.range (min (names.length / 4) (ordinals.length / 2))).mapM fun i => do
      let index ← ordinal ordinals i
      let address ← function names i
      return (index, address)
  | _, _ => return []

/-- The tables of a directory, as they lie in memory. -/
def ofMemory (memory : Memory) (d : Directory) : RawTables where
  functions := memory d.addressOfFunctions.toNat (d.numberOfFunctions.toNat * 4)
  names := memory d.addressOfNames.toNat (d.numberOfNames.toNat * 4)
  ordinals := memory d.addressOfNameOrdinals.toNat (d.numberOfNames.toNat * 2)

/-- The numbers that the rows of the tables hold. -/
def decoded (tables : RawTables) : Tables where
  functions := tables.functions.map Layout.u32.decodeAll
  names := tables.names.map Layout.u32.decodeAll
  ordinals := tables.ordinals.map Layout.u16.decodeAll

end RawTables

section Tables

variable {reader : Reader} {memory : Memory} {table : Bytes} {i : Nat}

/-- A table is read without an overflow, since its length is a product that fits. -/
lemma rawTable_eq (h : reader.Serves memory) (address count : UInt32) {width : Nat}
    (hwidth : width ≤ 4) : rawTable reader address count width =
      .ok (memory address.toNat (count.toNat * width)) := by
  have hcount := count.toNat_lt
  have hlength : count.toNat * width ≤ count.toNat * 4 := Nat.mul_le_mul_left _ hwidth
  rw [rawTable, checkedMul_eq (by omega), andThen,
    h.read_eq _ _ address.toNat_lt (by omega)]

/-- The address of a function in the table is accessed without a fault. -/
lemma function_eq (htable : table.length < 2 ^ 64) (h : i < (Layout.u32.decodeAll table).length) :
    function table i = .ok (Layout.u32.decodeAll table)[i] := by
  have hi : i < table.length / 4 := Layout.length_decodeAll .u32 table ▸ h
  rw [function, mul_eq (by omega)]
  exact fetch_row_eq htable h

/-- An index in the table of ordinals is accessed without a fault. -/
lemma ordinal_eq (htable : table.length < 2 ^ 64) (h : i < (Layout.u16.decodeAll table).length) :
    ordinal table i = .ok (Layout.u16.decodeAll table)[i].toNat := by
  have hi : i < table.length / 2 := Layout.length_decodeAll .u16 table ▸ h
  have hfetch : fetch .u16 table (i * 2) = .ok (Layout.u16.decodeAll table)[i] :=
    fetch_row_eq htable h
  rw [ordinal, mul_eq (by omega)]
  simp only [ok_bind, hfetch]
  rfl

/-- The three tables are read as they lie in memory. -/
lemma read_eq (h : reader.Serves memory) (d : Directory) :
    RawTables.read reader d = .ok (.ofMemory memory d) := by
  rw [RawTables.read, rawTable_eq h _ _ (by decide), rawTable_eq h _ _ (by decide),
    rawTable_eq h _ _ (by decide)]
  rfl

/-- The bytes of the tables are decoded to the tables. -/
lemma decoded_ofMemory (memory : Memory) (d : Directory) :
    (RawTables.ofMemory memory d).decoded = Tables.read memory d := rfl

/-- Names and indices are paired without a fault, as far as both tables go. -/
lemma pairs_eq {tables : RawTables} (hnames : ∀ bs ∈ tables.names, bs.length < 2 ^ 64)
    (hordinals : ∀ bs ∈ tables.ordinals, bs.length < 2 ^ 64) :
    tables.pairs = .ok tables.decoded.pairs := by
  obtain ⟨functions, names, ordinals⟩ := tables
  cases names with
  | none => cases ordinals <;> rfl
  | some names =>
    cases ordinals with
    | none => rfl
    | some ordinals =>
      have hnames := hnames names rfl
      have hordinals := hordinals ordinals rfl
      -- A row is in both tables, so neither of its two accesses goes past an end.
      have hrow : ∀ i ∈ List.range (min (names.length / 4) (ordinals.length / 2)),
          (do
            let index ← ordinal ordinals i
            let address ← function names i
            return (index, address)) =
          Except.ok (((Layout.u16.decodeAll ordinals).getD i 0).toNat,
            (Layout.u32.decodeAll names).getD i 0) := by
        intro i hi
        have hi := List.mem_range.mp hi
        have hname : i < (Layout.u32.decodeAll names).length := by
          rw [Layout.length_decodeAll]
          exact Nat.lt_of_lt_of_le hi (Nat.min_le_left _ _)
        have hordinal : i < (Layout.u16.decodeAll ordinals).length := by
          rw [Layout.length_decodeAll]
          exact Nat.lt_of_lt_of_le hi (Nat.min_le_right _ _)
        rw [ordinal_eq hordinals hordinal, function_eq hnames hname,
          List.getD_eq_getElem _ _ hordinal, List.getD_eq_getElem _ _ hname]
        rfl
      refine (mapM_eq hrow).trans (congrArg Except.ok ?_)
      apply List.ext_getElem
      · simp [RawTables.decoded, Tables.pairs, Layout.u16, Layout.u32, Layout.number,
          Nat.min_comm]
      · intro i hi hi'
        simp only [RawTables.decoded, Tables.pairs, Option.map_some, List.length_zip,
          List.length_map, Nat.lt_min] at hi'
        simp only [RawTables.decoded, Tables.pairs, Option.map_some, List.getElem_map,
          List.getElem_range, List.getElem_zip, List.getD_eq_getElem _ _ hi'.1,
          List.getD_eq_getElem _ _ hi'.2]

/-- The tables of a directory are short enough to be accessed. -/
lemma length_ofMemory_lt (hm : memory.Exact) (d : Directory) :
    (∀ bs ∈ (RawTables.ofMemory memory d).functions, bs.length < 2 ^ 64) ∧
      (∀ bs ∈ (RawTables.ofMemory memory d).names, bs.length < 2 ^ 64) ∧
      ∀ bs ∈ (RawTables.ofMemory memory d).ordinals, bs.length < 2 ^ 64 := by
  have hfunctions := d.numberOfFunctions.toNat_lt
  have hnames := d.numberOfNames.toNat_lt
  refine ⟨fun bs hbs => ?_, fun bs hbs => ?_, fun bs hbs => ?_⟩
  all_goals
    have hlength := hm _ _ _ hbs
    omega

end Tables

/-! ## Exported functions -/

/-- Whether an address lies in a directory. -/
def contains (range : DataDirectory) (address : UInt32) : Step Bool := do
  let stop ← add 64 range.address.toNat range.size.toNat
  return range.address ≤ address && address.toNat < stop

/-- The name at an address, of which zero stands for none. -/
def exportedName (reader : Reader) (address : UInt32) : Step Name := do
  if address = 0 then return .ordinal
  match ← text reader address.toNat with
  | some name => return .named name
  | none => return .unresolved address

/-- What an entry of the address table stands for. -/
def exportedTarget (reader : Reader) (range : DataDirectory) (address : UInt32) :
    Step Target := do
  if ← contains range address then
    match ← text reader address.toNat with
    | some function => return .forwarder function
    | none => return .address address
  else
    return .address address

/-- The function at an index, if its address is not zero. -/
def exportedFunction (reader : Reader) (range : DataDirectory) (directory : Directory)
    (functions : Bytes) (index : Nat) (nameAddress : UInt32) : Step (Option Function) := do
  let address ← function functions index
  if address = 0 then return none
  let name ← exportedName reader nameAddress
  let target ← exportedTarget reader range address
  return some { ordinal := directory.ordinal index, address, name, target }

/-- The contents of the export directory that fills a range of addresses. -/
def exportTable (reader : Reader) (range : DataDirectory) :
    Step (Except DecodeError Table) := do
  match ← reader range.address.toNat Directory.layout.size with
  | none => return .error (.unmapped range.address)
  | some bytes =>
    match ← parse Directory.layout bytes with
    | none => return .error (.tooShort Directory.layout.size bytes.length)
    | some directory =>
      let libraryName ← text reader directory.libraryName.toNat
      let tables ← RawTables.read reader directory
      match tables.functions with
      | none => return .error (.missingTable .address)
      | some functions =>
        let names := Table.nameAddresses (functions.length / 4) (← tables.pairs)
        let found ← names.toList.zipIdx.mapM fun (nameAddress, index) =>
          exportedFunction reader range directory functions index nameAddress
        return .ok { directory, libraryName, functions := found.filterMap id }

section Functions

variable {reader : Reader} {memory : Memory}

/-- Whether an address lies inside the directory is told without an overflow. -/
lemma contains_eq (range : DataDirectory) (address : UInt32) :
    contains range address = .ok (range.contains address) := by
  have haddress := range.address.toNat_lt
  have hsize := range.size.toNat_lt
  rw [contains, add_eq (by omega)]
  rfl

/-- The name of a function is read without a fault. -/
lemma exportedName_eq (h : reader.Serves memory) (address : UInt32) :
    exportedName reader address = .ok (Table.nameAt memory address) := by
  rw [exportedName, Table.nameAt, text_eq h address.toNat_lt]
  by_cases hzero : address = 0
  · rw [if_pos hzero, if_pos hzero]
    rfl
  · rw [if_neg hzero, if_neg hzero]
    cases memory.text address.toNat <;> rfl

/-- The target of a function is told without a fault. -/
lemma exportedTarget_eq (h : reader.Serves memory) (range : DataDirectory) (address : UInt32) :
    exportedTarget reader range address = .ok (Table.targetAt memory range address) := by
  rw [exportedTarget, Table.targetAt, contains_eq, text_eq h address.toNat_lt]
  cases range.contains address with
  | false => rfl
  | true => cases memory.text address.toNat <;> rfl

/-- A function is described without a fault, if it has an address in the table. -/
lemma exportedFunction_eq (h : reader.Serves memory) (range : DataDirectory)
    (directory : Directory) {functions : Bytes} (hfunctions : functions.length < 2 ^ 64)
    {index : Nat} (hindex : index < (Layout.u32.decodeAll functions).length)
    (nameAddress : UInt32) :
    exportedFunction reader range directory functions index nameAddress =
      .ok (Table.function? memory range directory index
        ((Layout.u32.decodeAll functions).getD index 0) nameAddress) := by
  rw [exportedFunction, function_eq hfunctions hindex, Table.function?,
    List.getD_eq_getElem _ _ hindex]
  generalize (Layout.u32.decodeAll functions)[index] = address
  simp only [ok_bind, exportedName_eq h, exportedTarget_eq h]
  by_cases hzero : address = 0
  · rw [if_pos hzero, if_pos hzero]
    rfl
  · rw [if_neg hzero, if_neg hzero]
    rfl

/-- A column with the number of each row. -/
lemma zipIdx_eq_map_range {α : Type} (xs : List α) (x : α) :
    xs.zipIdx = (List.range xs.length).map fun i => (xs.getD i x, i) := by
  apply List.ext_getElem
  · simp
  · intro i _ hi
    simp only [List.length_map, List.length_range] at hi
    simp [List.getD_eq_getElem?_getD, hi]

/-- The export table is decoded without a fault. -/
lemma exportTable_eq (h : reader.Serves memory) (range : DataDirectory) :
    exportTable reader range = .ok (Table.decode memory range) := by
  rw [exportTable, h.read_eq _ _ range.address.toNat_lt (by decide), Table.decode]
  cases hbytes : memory range.address.toNat Directory.layout.size with
  | none => rfl
  | some bytes =>
    have hlength := h.exact _ _ _ hbytes
    have hsize : Directory.layout.size < 2 ^ 64 := by decide
    simp only [ok_bind, parse_eq (l := Directory.layout) (hlength ▸ hsize), Layout.decode]
    cases Directory.layout.decode? bytes with
    | none => rfl
    | some directory =>
      obtain ⟨hfunctions, hnames, hordinals⟩ := length_ofMemory_lt h.exact directory
      simp only [bind, Except.bind, text_eq h directory.libraryName.toNat_lt, read_eq h]
      rw [← decoded_ofMemory memory directory]
      cases hf : (RawTables.ofMemory memory directory).functions with
      | none =>
        simp only [RawTables.decoded, hf]
        rfl
      | some functions =>
        have hcount : (Layout.u32.decodeAll functions).length = functions.length / 4 :=
          Layout.length_decodeAll .u32 functions
        have hdecoded : (RawTables.ofMemory memory directory).decoded.functions =
            some (Layout.u32.decodeAll functions) := by rw [RawTables.decoded, hf]; rfl
        simp only [pairs_eq hnames hordinals, hdecoded, ← hcount]
        -- Only the number of the names matters: it is that of the addresses.
        generalize hnames' : Table.nameAddresses (Layout.u32.decodeAll functions).length
          (RawTables.ofMemory memory directory).decoded.pairs = names
        have hnamesSize : names.toList.length = (Layout.u32.decodeAll functions).length := by
          rw [← hnames', Array.length_toList, Table.size_nameAddresses]
        have hrow : ∀ p ∈ names.toList.zipIdx,
            exportedFunction reader range directory functions p.2 p.1 =
              .ok (Table.function? memory range directory p.2
                ((Layout.u32.decodeAll functions).getD p.2 0) p.1) := by
          rintro ⟨nameAddress, index⟩ hp
          have hindex := List.snd_lt_of_mem_zipIdx hp
          exact exportedFunction_eq h range directory (hfunctions functions hf) (by omega) nameAddress
        rw [mapM_eq hrow, zipIdx_zip_eq _ _ 0 0 hnamesSize, zipIdx_eq_map_range _ 0, hnamesSize]
        simp only [pure_eq, List.filterMap_map, List.map_map]
        rfl

end Functions

/-! ## Exported symbols -/

/-- Marks an index in the words, if they have a bit for it. -/
def mark (words : Array Nat) (i : Nat) : Step (Array Nat) := do
  match words[i / 32]? with
  | none => return words
  | some word =>
    let bit ← shiftLeft 32 1 (i % 32)
    return words.setIfInBounds (i / 32) (word ||| bit)

/-- Whether an index is marked. -/
def isMarked (words : Array Nat) (i : Nat) : Step Bool := do
  let word ← index words.toList (i / 32)
  let bit ← shiftLeft 32 1 (i % 32)
  return word &&& bit ≠ 0

/-- The words in which the indices of some names are marked. -/
def marks (count : Nat) (pairs : List (Nat × UInt32)) : Step (Array Nat) :=
  pairs.foldlM (fun words p => mark words p.1) (Array.replicate ((count + 31) / 32) 0)

/-- The mark that the words hold for an index. -/
def bitAt (words : Array Nat) (i : Nat) : Bool :=
  (words.getD (i / 32) 0).testBit (i % 32)

section Marks

variable {words : Array Nat} {i : Nat}

/-- The mark of a place in its word is shifted without a fault. -/
lemma shiftLeft_one_eq (i : Nat) : shiftLeft 32 1 (i % 32) = .ok (2 ^ (i % 32)) := by
  have hlt : i % 32 < 32 := Nat.mod_lt _ (by decide)
  have hpow : 2 ^ (i % 32) < 2 ^ 32 := Nat.pow_lt_pow_right (by decide) hlt
  rw [shiftLeft_eq hlt, Nat.one_mul, Nat.mod_eq_of_lt hpow]

/-- Marking an index changes the mark of that index only. -/
lemma mark_eq (words : Array Nat) (i : Nat) : ∃ words', mark words i = .ok words' ∧
    words'.size = words.size ∧ ∀ j, j / 32 < words.size →
      bitAt words' j = (bitAt words j || decide (i = j)) := by
  rw [mark]
  by_cases hi : i / 32 < words.size
  · rw [Array.getElem?_eq_getElem hi]
    simp only [shiftLeft_one_eq, ok_bind, pure_eq]
    refine ⟨_, rfl, Array.size_setIfInBounds, fun j hj => ?_⟩
    rw [bitAt, bitAt, Array.getD_eq_getD_getElem?, Array.getD_eq_getD_getElem?]
    by_cases hword : i / 32 = j / 32
    · have hsame : decide (i % 32 = j % 32) = decide (i = j) := by
        rw [decide_eq_decide]
        omega
      rw [Array.getElem?_setIfInBounds, if_pos hword, if_pos hi, Option.getD_some, Nat.testBit_or,
        Nat.testBit_two_pow, hsame]
      simp [hword, hj]
    · have hne : i ≠ j := fun heq => hword (heq ▸ rfl)
      rw [Array.getElem?_setIfInBounds_ne hword]
      simp [hne]
  · rw [Array.getElem?_eq_none (Nat.not_lt.mp hi)]
    refine ⟨words, rfl, rfl, fun j hj => ?_⟩
    have hne : i ≠ j := fun heq => hi (heq ▸ hj)
    simp [hne]

/-- A mark is looked up without a fault, if there is a word for it. -/
lemma isMarked_eq (h : i / 32 < words.size) : isMarked words i = .ok (bitAt words i) := by
  have hword : words.getD (i / 32) 0 = words[i / 32] := by
    rw [Array.getD_eq_getD_getElem?, Array.getElem?_eq_getElem h, Option.getD_some]
  rw [isMarked, index_eq (by simpa using h), shiftLeft_one_eq, bitAt, hword]
  simp only [ok_bind, pure_eq, Nat.and_two_pow, Array.getElem_toList]
  cases words[i / 32].testBit (i % 32) <;> simp

/-- Marking the indices of some names changes the marks of those indices only. -/
lemma foldlM_mark_eq (pairs : List (Nat × UInt32)) (words : Array Nat) :
    ∃ words', pairs.foldlM (fun words p => mark words p.1) words = Except.ok words' ∧
      words'.size = words.size ∧ ∀ j, j / 32 < words.size →
        bitAt words' j = (bitAt words j || pairs.any fun p => p.1 = j) := by
  induction pairs generalizing words with
  | nil => exact ⟨words, rfl, rfl, by simp⟩
  | cons p pairs ih =>
    obtain ⟨first, hfirst, hsize, hbit⟩ := mark_eq words p.1
    obtain ⟨last, hlast, hsize', hbit'⟩ := ih first
    refine ⟨last, ?_, hsize'.trans hsize, fun j hj => ?_⟩
    · rw [List.foldlM_cons, hfirst]
      exact hlast
    · rw [hbit' j (hsize ▸ hj), hbit j hj, List.any_cons, Bool.or_assoc]

/-- The words tell of each index below the count whether an entry of the name table belongs to
it. -/
lemma marks_eq (count : Nat) (pairs : List (Nat × UInt32)) :
    ∃ words, marks count pairs = .ok words ∧ words.size = (count + 31) / 32 ∧
      ∀ i < count, bitAt words i = pairs.any fun p => p.1 = i := by
  obtain ⟨words, hwords, hsize, hbit⟩ :=
    foldlM_mark_eq pairs (Array.replicate ((count + 31) / 32) 0)
  rw [Array.size_replicate] at hsize hbit
  refine ⟨words, hwords, hsize, fun i hi => ?_⟩
  -- The count is rounded up to whole words, so each index below it has a bit.
  have hword : i / 32 < (count + 31) / 32 := by omega
  rw [hbit i hword]
  simp [bitAt, Array.getD_eq_getD_getElem?, hword]

end Marks

/-- The symbol of a name. -/
def namedSymbol (reader : Reader) (directory : Directory) (index : Nat) (address : UInt32) :
    Step Symbol := do
  let name ← text reader address.toNat
  return ⟨directory.ordinal index, name.getD Symbols.unreadableName⟩

/-- The symbol of the function at an index, if it has no name. -/
def unnamedSymbol (directory : Directory) (tag : String) (functions : Bytes) (words : Array Nat)
    (index : Nat) : Step (Option Symbol) := do
  let named ← isMarked words index
  let address ← function functions index
  let ordinal := directory.ordinal index
  return if address ≠ 0 ∧ !named then some ⟨ordinal, Symbols.synthetic tag ordinal⟩ else none

/-- The symbols of an export directory. -/
def symbolsOf (reader : Reader) (directory : Directory) (tag : String) :
    Step (Except DecodeError Symbols) := do
  let tables ← RawTables.read reader directory
  if tables.names.isNone then return .error (.missingTable .name)
  if tables.ordinals.isNone then return .error (.missingTable .ordinal)
  match tables.functions with
  | none => return .error (.missingTable .address)
  | some functions =>
    let count := functions.length / 4
    let pairs ← tables.pairs
    let words ← marks count pairs
    let named ← pairs.mapM fun p => namedSymbol reader directory p.1 p.2
    let unnamed ← (List.range count).mapM (unnamedSymbol directory tag functions words)
    let symbols := named ++ unnamed.filterMap id
    return .ok {
      pending := symbols.mergeSort fun a b => a.ordinal ≤ b.ordinal
      named := directory.numberOfNames
      total := directory.numberOfFunctions
      base := directory.base }

section Symbols

variable {reader : Reader} {memory : Memory}

/-- A symbol with a name is made without a fault. -/
lemma namedSymbol_eq (h : reader.Serves memory) (directory : Directory) (index : Nat)
    (address : UInt32) : namedSymbol reader directory index address =
      .ok ⟨directory.ordinal index,
        (memory.text address.toNat).getD Symbols.unreadableName⟩ := by
  rw [namedSymbol, text_eq h address.toNat_lt]
  rfl

/-- The symbols without a name, by the words in which the named indices are marked. -/
lemma mapM_unnamedSymbol_eq (directory : Directory) (tag : String) {functions : Bytes}
    {pairs : List (Nat × UInt32)} {words : Array Nat} {addresses : List UInt32}
    (hfunctions : functions.length < 2 ^ 64) (haddresses : Layout.u32.decodeAll functions = addresses)
    (hsize : words.size = (addresses.length + 31) / 32)
    (hbit : ∀ i < addresses.length, bitAt words i = pairs.any fun p => p.1 = i) :
    ∃ found, (List.range addresses.length).mapM (unnamedSymbol directory tag functions words) =
        .ok found ∧
      found.filterMap id = Symbols.unnamedSymbols directory tag addresses
        (Symbols.isNamed addresses.length pairs).toList := by
  have hrow : ∀ i ∈ List.range addresses.length,
      unnamedSymbol directory tag functions words i = .ok
        (if addresses.getD i 0 ≠ 0 ∧ !(pairs.any fun p => p.1 = i) then
          some ⟨directory.ordinal i, Symbols.synthetic tag (directory.ordinal i)⟩ else none) := by
    intro i hi
    have hi := List.mem_range.mp hi
    -- There are 32 marks to a word, which gives each index of the table its word.
    have hword : i / 32 < words.size := by omega
    subst haddresses
    rw [unnamedSymbol, isMarked_eq hword, function_eq hfunctions hi, hbit i hi,
      List.getD_eq_getElem _ _ hi]
    rfl
  refine ⟨_, mapM_eq hrow, ?_⟩
  have hlength : (Symbols.isNamed addresses.length pairs).toList.length = addresses.length := by
    rw [Array.length_toList, Symbols.size_isNamed]
  rw [Symbols.unnamedSymbols, zipIdx_zip_eq _ _ 0 false hlength, List.filterMap_map,
    List.filterMap_map]
  apply List.filterMap_congr
  intro i hi
  have hmark : (Symbols.isNamed addresses.length pairs).toList.getD i false =
      pairs.any fun p => p.1 = i := by
    rw [List.getD_eq_getElem?_getD, Array.getElem?_toList,
      Symbols.getElem?_isNamed _ _ _ (List.mem_range.mp hi), Option.getD_some]
  simp only [Function.comp_apply, id_eq, hmark]

/-- The symbols of a directory are listed without a fault: with the marks in words of 32 bits, the
same are found to have names. -/
lemma symbolsOf_eq (h : reader.Serves memory) (directory : Directory) (tag : String) :
    symbolsOf reader directory tag = .ok (Symbols.ofDirectory memory directory tag) := by
  obtain ⟨hfunctions, hnames, hordinals⟩ := length_ofMemory_lt h.exact directory
  rw [symbolsOf, read_eq h, Symbols.ofDirectory, ← decoded_ofMemory memory directory]
  generalize RawTables.ofMemory memory directory = tables at hfunctions hnames hordinals
  have hpairs := pairs_eq hnames hordinals
  simp only [ok_bind, hpairs]
  obtain ⟨functions, names, ordinals⟩ := tables
  -- The first table that is missing is the error, in this order.
  cases names with
  | none => rfl
  | some names =>
    cases ordinals with
    | none => rfl
    | some ordinals =>
      cases functions with
      | none => rfl
      | some functions =>
        have hcount : (Layout.u32.decodeAll functions).length = functions.length / 4 :=
          Layout.length_decodeAll .u32 functions
        have hnamed (pairs : List (Nat × UInt32)) :
            (pairs.mapM fun p => namedSymbol reader directory p.1 p.2) =
              .ok (Symbols.namedSymbols memory directory pairs) :=
          mapM_eq fun p _ => namedSymbol_eq h directory p.1 p.2
        generalize (RawTables.decoded _).pairs = pairs
        obtain ⟨words, hwords, hsize, hbit⟩ :=
          marks_eq (Layout.u32.decodeAll functions).length pairs
        obtain ⟨unnamed, hunnamed, hfound⟩ :=
          mapM_unnamedSymbol_eq directory tag (hfunctions functions rfl) rfl hsize hbit
        simp only [← hcount, hwords, hnamed, hunnamed, hfound, ok_bind]
        rfl

end Symbols

/-! ## Images -/

/-- The exported functions. -/
def exports (e : Executable) : Step (Except DecodeError (Option Table)) := do
  match ← directory e DirectorySlot.exports.index with
  | none => return .ok none
  | some (range, _) => return some <$> (← exportTable (memory e) range)

/-- The header of the export directory. -/
def exportDirectory (e : Executable) : Step (Option Directory) := do
  match ← directory e DirectorySlot.exports.index with
  | none => return none
  | some (range, _) => (memory e).record? Directory.layout range.address.toNat

/-- The exported symbols, those without a name called after a tag. -/
def exportSymbols (e : Executable) (tag : String) : Step (Except DecodeError Symbols) := do
  match ← exportDirectory e with
  | none => return .ok {}
  | some directory => symbolsOf (memory e) directory tag

variable {e : Executable}

/-- The exports of an executable are decoded without a fault. -/
theorem exports_eq (h : Fits e.image) : exports e = .ok e.exports := by
  rw [exports, directory_eq h, Executable.exports]
  cases e.directoryOf .exports with
  | none => rfl
  | some found => simp [exportTable_eq (memory_serves h)]

/-- The export directory of an executable is decoded without a fault. -/
lemma exportDirectory_eq (h : Fits e.image) : exportDirectory e = .ok e.exportDirectory := by
  rw [exportDirectory, directory_eq h, Executable.exportDirectory]
  cases e.directoryOf .exports with
  | none => rfl
  | some found =>
    exact (memory_serves h).record?_eq (l := Directory.layout) (by decide)
      found.1.address.toNat_lt

/-- The symbols of an executable are listed without a fault. -/
theorem exportSymbols_eq (h : Fits e.image) (tag : String) :
    exportSymbols e tag = .ok (e.exportSymbols tag) := by
  rw [exportSymbols, exportDirectory_eq h, Executable.exportSymbols]
  cases e.exportDirectory with
  | none => rfl
  | some directory => exact symbolsOf_eq (memory_serves h) directory tag

end PeCoff.Machine
