import Mathlib
import PeCoff.Proofs.Machine.Headers

/-!
# Resources on a machine

Blocks of strings, message tables, and the tree that leads to them. The places in a block are sums
of lengths that the block itself holds, and the places in the tree are sums of offsets. The main
statement is `resources_eq`.
-/

namespace PeCoff.Machine

open PeCoff.Resource

/-! ## Blocks of strings -/

/-- The strings from a place on, at most `places` of them, numbered from `id`. -/
def stringsFrom (units : List UInt16) :
    (places : Nat) → (id : UInt32) → (start : Nat) → Step (List TableString)
  | 0, _, _ => return []
  | places + 1, id, start =>
    match units[start]? with
    | none => return []
    | some length => do
      let first ← add 64 start 1
      let length := min length.toNat (← sub units.length first)
      let stop ← add 64 first length
      let found ← if 0 < length then (slice units first stop).map fun text => [⟨id, text⟩]
        else pure []
      return found ++ (← stringsFrom units places (id + 1) stop)

/-- The strings of a block. -/
def stringTable (bs : Bytes) (block : UInt16) : Step (List TableString) := do
  stringsFrom (← units bs) StringTable.blockSize (StringTable.firstId block) 0

/-- The strings of a block are found without a fault, from any place in it. -/
lemma stringsFrom_eq {units : List UInt16} (hunits : units.length < 2 ^ 64) {places : Nat}
    {id : UInt32} {start : Nat} (hstart : start ≤ units.length) :
    stringsFrom units places id start =
      .ok (StringTable.ofUnits places id (units.drop start)) := by
  induction places generalizing id start with
  | zero => rfl
  | succ places ih =>
    rw [stringsFrom]
    by_cases h : start < units.length
    · rw [List.getElem?_eq_getElem h, List.drop_eq_getElem_cons h, StringTable.ofUnits,
        List.drop_drop]
      simp only [add_eq (show start + 1 < 2 ^ 64 by omega), ok_bind]
      rw [sub_eq (by omega)]
      simp only [ok_bind]
      generalize units[start].toNat = declared
      -- The declared length is cut off at the end, and so the text and the rest are the same.
      have hle : start + 1 + min declared (units.length - (start + 1)) ≤ units.length := by omega
      have htext : (units.take (start + 1 + min declared (units.length - (start + 1)))).drop
          (start + 1) = (units.drop (start + 1)).take declared := by
        rw [List.drop_take, Nat.add_sub_cancel_left, ← List.length_drop,
          ← List.take_eq_take_min]
      have hrest : units.drop (start + 1 + min declared (units.length - (start + 1))) =
          units.drop (start + 1 + declared) := by
        rcases Nat.le_total declared (units.length - (start + 1)) with hless | hmore
        · rw [Nat.min_eq_left hless]
        · rw [Nat.min_eq_right hmore, List.drop_of_length_le (by omega),
            List.drop_of_length_le (by omega)]
      rw [add_eq (by omega)]
      simp only [ok_bind, ih hle, slice_eq (Nat.le_add_right _ _) hle, htext, hrest, Except.map]
      by_cases hempty : 0 < min declared (units.length - (start + 1))
      · have hne : (units.drop (start + 1)).take declared ≠ [] := by
          rw [← List.length_pos_iff, List.length_take, List.length_drop]
          exact hempty
        rw [if_pos hempty, if_neg hne]
        rfl
      · have heq : (units.drop (start + 1)).take declared = [] := by
          rw [← List.length_eq_zero_iff, List.length_take, List.length_drop]
          omega
        rw [if_neg hempty, if_pos heq]
        rfl
    · rw [List.getElem?_eq_none (Nat.not_lt.mp h), List.drop_of_length_le (Nat.not_lt.mp h)]
      rfl

/-- There are no more units than bytes. -/
lemma length_units_le (bs : Bytes) : (Text.Utf16.units bs).length ≤ bs.length := by
  rw [← decodeAll_u16_eq, Layout.length_decodeAll]
  exact Nat.div_le_self _ _

/-- A block of strings is decoded without a fault. -/
lemma stringTable_eq {bs : Bytes} (hbs : bs.length < 2 ^ 64) (block : UInt16) :
    stringTable bs block = .ok (StringTable.decode bs block) := by
  have hunits : (Text.Utf16.units bs).length < 2 ^ 64 :=
    Nat.lt_of_le_of_lt (length_units_le bs) hbs
  rw [stringTable, units_eq, StringTable.decode]
  exact stringsFrom_eq hunits (Nat.zero_le _)

/-! ## Message tables -/

open MessageTable

/-- The text of an entry. -/
def messageText (flags : UInt16) (body : Bytes) : Step MessageText := do
  if flags &&& 1 ≠ 0 then return .wide ((← units body).takeWhile (· != 0))
  return .narrow (Bytes.untilZero body)

/-- Up to `count` messages that lie end to end from an offset on, numbered from `id`. -/
def messagesFrom (bs : Bytes) : (count id offset : Nat) → Step (List Message)
  | 0, _, _ => return []
  | count + 1, id, offset => do
    match ← recordIn .u16 bs offset, ← recordIn .u16 bs (← add 64 offset 2) with
    | some length, some flags =>
      if length = 0 then return []
      let stop := min (saturatingAdd offset length.toNat) bs.length
      let text ← messageText flags ((slice? bs (← add 64 offset 4) stop).getD [])
      let rest ← messagesFrom bs count (id + 1) (← add 64 offset length.toNat)
      return ⟨id, text⟩ :: rest
    | _, _ => return []

/-- The messages of the blocks from a number on. -/
def blocksFrom (bs : Bytes) : (remaining number : Nat) → Step (List Message)
  | 0, _ => return []
  | remaining + 1, number => do
    let place ← add 64 4 (← mul 64 number 12)
    match ← recordIn .u32 bs place, ← recordIn .u32 bs (← add 64 place 4),
        ← recordIn .u32 bs (← add 64 place 8) with
    | some low, some high, some offset =>
      let found ← messagesFrom bs (high.toNat + 1 - low.toNat) low.toNat offset.toNat
      return found ++ (← blocksFrom bs remaining (number + 1))
    | _, _, _ => return []

/-- The messages of a table. -/
def messageTable (bs : Bytes) : Step (List Message) := do
  match ← recordIn .u32 bs 0 with
  | none => return []
  | some declared => blocksFrom bs declared.toNat 0

/-- The text of a message is decoded without a fault. -/
lemma messageText_eq (flags : UInt16) (body : Bytes) :
    messageText flags body = .ok (textOf flags body) := by
  rw [messageText, textOf, units_eq]
  split <;> rfl

/-- A record of a file made of bytes is the one at the front of the bytes behind its offset. -/
lemma record?_ofList {α : Type} {l : Layout α} (hl : 0 < l.size) (bs : Bytes) (offset : Nat) :
    (Image.ofList bs).record? l offset = l.decode? (bs.drop offset) := by
  rw [Image.record?, Image.read, Image.size_ofList, Image.clipped_eq, Image.toList_ofList,
    Layout.decode?_eq, List.length_drop]
  by_cases h : offset + l.size ≤ bs.length
  · rw [if_pos h, if_pos (by omega), Option.map_some, l.read_take _ (Nat.le_refl _)]
  · rw [if_neg h, if_neg (by omega)]
    rfl

/-- The bytes between the header of an entry and its end. -/
lemma slice?_body_eq {bs : Bytes} (hbs : bs.length < 2 ^ 63) (offset length : Nat) :
    (slice? bs (offset + 4) (min (saturatingAdd offset length) bs.length)).getD [] =
      ((bs.drop offset).take length).drop 4 := by
  have hstop : min (saturatingAdd offset length) bs.length = min (offset + length) bs.length := by
    rw [saturatingAdd]
    omega
  rw [hstop, ← drop_take_min_eq]
  by_cases h : offset + 4 ≤ min (offset + length) bs.length
  · rw [slice?_eq h (Nat.min_le_right _ _), Option.getD_some]
  · have hnone : slice? bs (offset + 4) (min (offset + length) bs.length) = none :=
      if_neg fun hrange => h hrange.1
    rw [hnone, Option.getD_none]
    symm
    rw [← List.length_eq_zero_iff, List.length_drop, List.length_take]
    omega

/-- The messages of a block are found without a fault, and their offsets do not outgrow a word. -/
lemma messagesFrom_eq {bs : Bytes} (hbs : bs.length < 2 ^ 63) {count id offset : Nat}
    (hoffset : offset < 2 ^ 63 + 2 ^ 32) :
    messagesFrom bs count id offset = .ok (entries (Image.ofList bs) count id offset) := by
  -- An entry lies inside the bytes, and the next one starts at most a length of 16 bits behind
  -- their end; this is what the bound on the offset has room for.
  induction count generalizing id offset with
  | zero => rfl
  | succ count ih =>
    have hu16 : Layout.u16.size = 2 := rfl
    have hheader : entryHeader.size = 4 := rfl
    rw [messagesFrom, entries, record?_ofList (by decide), entryHeader, decode?_pair,
      add_eq (by omega), List.drop_drop, hu16]
    simp only [ok_bind]
    rw [recordIn_eq (by decide) (by omega), recordIn_eq (by decide) (by omega)]
    simp only [ok_bind]
    cases hlength : Layout.u16.decode? (bs.drop offset) with
    | none => rfl
    | some length =>
      cases hflags : Layout.u16.decode? (bs.drop (offset + 2)) with
      | none => rfl
      | some flags =>
        have hend := Layout.size_le_of_decode? _ hflags
        have hlt := length.toNat_lt
        rw [List.length_drop, hu16] at hend
        simp only [Option.bind_some, Option.map_some]
        by_cases hzero : length = 0
        · rw [if_pos hzero, if_pos hzero]
          rfl
        · rw [if_neg hzero, if_neg hzero, Image.clipped_eq, Image.toList_ofList]
          simp only [add_eq (show offset + 4 < 2 ^ 64 by omega), ok_bind, messageText_eq,
            slice?_body_eq hbs]
          rw [add_eq (by omega)]
          simp only [ok_bind]
          rw [ih (by omega)]
          rfl

/-- The header of a block, by its three numbers. -/
lemma decode?_block (bs : Bytes) : Block.layout.decode? bs =
    (Layout.u32.decode? bs).bind fun low => (Layout.u32.decode? (bs.drop 4)).bind fun high =>
      (Layout.u32.decode? (bs.drop 8)).map fun offset => ⟨low, high, offset⟩ := by
  have hequiv : Block.layout.decode? bs =
      ((Layout.u32.pair (Layout.u32.pair .u32)).decode? bs).map
        fun parts => ⟨parts.1, parts.2.1, parts.2.2⟩ := by
    have hsize : Block.layout.size = (Layout.u32.pair (Layout.u32.pair .u32)).size := rfl
    rw [Layout.decode?_eq, Layout.decode?_eq, hsize]
    split <;> rfl
  rw [hequiv, decode?_pair, show Layout.u32.size = 4 from rfl, decode?_pair,
    show Layout.u32.size = 4 from rfl, List.drop_drop]
  cases Layout.u32.decode? bs with
  | none => rfl
  | some low =>
    simp only [Option.bind_some]
    cases Layout.u32.decode? (bs.drop 4) with
    | none => rfl
    | some high =>
      simp only [Option.bind_some]
      cases Layout.u32.decode? (bs.drop (4 + 4)) <;> rfl

/-- The blocks of a message table are decoded without a fault, from any of them on. -/
lemma blocksFrom_eq {bs : Bytes} (hbs : bs.length < 2 ^ 63) {remaining number : Nat}
    (hend : number + remaining < 2 ^ 32) :
    blocksFrom bs remaining number =
      .ok ((Block.layout.decodeAll ((bs.drop (4 + number * 12)).take (remaining * 12))).flatMap
        (blockMessages (Image.ofList bs))) := by
  induction remaining generalizing number with
  | zero =>
    rw [Nat.zero_mul, List.take_zero]
    rfl
  | succ remaining ih =>
    have hblock : Block.layout.size = 12 := rfl
    have hu32 : Layout.u32.size = 4 := rfl
    have htake := decodeAll_take_eq (l := Block.layout) (by decide) (bs.drop (4 + number * 12))
      remaining
    -- The three fields of a block are read one by one, each at its own offset.
    rw [hblock] at htake
    rw [blocksFrom, mul_eq (by omega), htake, decode?_block, List.drop_drop, List.drop_drop,
      List.drop_drop]
    simp only [ok_bind]
    rw [add_eq (by omega)]
    simp only [ok_bind]
    rw [add_eq (by omega), add_eq (by omega)]
    simp only [ok_bind]
    rw [recordIn_eq (by decide) (by omega), recordIn_eq (by decide) (by omega),
      recordIn_eq (by decide) (by omega)]
    simp only [ok_bind]
    cases Layout.u32.decode? (bs.drop (4 + number * 12)) with
    | none => rfl
    | some low =>
      cases Layout.u32.decode? (bs.drop (4 + number * 12 + 4)) with
      | none => rfl
      | some high =>
        cases Layout.u32.decode? (bs.drop (4 + number * 12 + 8)) with
        | none => rfl
        | some offset =>
          have hoffset := offset.toNat_lt
          have hnext : 4 + number * 12 + 12 = 4 + (number + 1) * 12 := by omega
          simp only [Option.bind_some, Option.map_some, List.flatMap_cons]
          rw [messagesFrom_eq hbs (by omega)]
          simp only [ok_bind]
          rw [ih (by omega), hnext]
          rfl

/-- A message table is decoded without a fault. -/
lemma messageTable_eq {bs : Bytes} (hbs : bs.length < 2 ^ 63) :
    messageTable bs = .ok (MessageTable.decode bs) := by
  rw [messageTable, recordIn_eq (by decide) (by decide), MessageTable.decode, blocks,
    List.drop_zero]
  simp only [ok_bind]
  cases Layout.u32.decode? bs with
  | none => rfl
  | some declared =>
    have hdeclared := declared.toNat_lt
    exact blocksFrom_eq hbs (by omega)

/-! ## The tree -/

section Tree

/-- The bytes at an offset from the root. -/
def treeBytes (reader : Reader) (root : UInt32) (offset length : Nat) : Step (Option Bytes) :=
  andThen (checkedAdd 32 root.toNat offset) fun address => reader address length

/-- The record at an offset from the root. -/
def treeRecord {α : Type} (reader : Reader) (root : UInt32) (l : Layout α) (offset : Nat) :
    Step (Option α) := do
  andThen (← treeBytes reader root offset l.size) (parse l)

/-- The entries of a directory from a number on, as far as they can be read. -/
def treeEntries (reader : Reader) (root : UInt32) (first : Nat) :
    (remaining number : Nat) → Step (List DirectoryEntry)
  | 0, _ => return []
  | remaining + 1, number => do
    let distance ← mul 32 number 8
    match ← andThen (checkedAdd 32 first distance)
        (treeRecord reader root DirectoryEntry.layout) with
    | none => return []
    | some e => return e :: (← treeEntries reader root first remaining (number + 1))

/-- The entries of the directory at an offset, if its header can be read. -/
def treeDirectory (reader : Reader) (root : UInt32) (offset : Nat) :
    Step (Option (List DirectoryEntry)) := do
  match ← treeRecord reader root DirectoryHeader.layout offset with
  | none => return none
  | some header =>
    let total ← add 64 header.numberOfNamedEntries.toNat header.numberOfIdEntries.toNat
    match checkedAdd 32 offset 16 with
    | none => return none
    | some first => return some (← treeEntries reader root first (total % 2 ^ 32) 0)

/-- What an entry is called. -/
def treeId (reader : Reader) (root : UInt32) (e : DirectoryEntry) : Step Resource.Id := do
  if !e.isNamed then return .number e.id
  let length ← treeRecord reader root .u16 e.nameOffset
  let text ← andThen length fun length =>
    andThen (checkedAdd 32 e.nameOffset 2) fun place => do
      treeBytes reader root place (← mul 64 length.toNat 2)
  return .name (← units (text.getD []))

variable {reader : Reader} {memory : Memory} {root : UInt32} {offset : Nat}

/-- A range of the tree is read without an overflow. -/
lemma treeBytes_eq (h : reader.Serves memory) {length : Nat} (hlength : length < 2 ^ 64) :
    treeBytes reader root offset length = .ok (Tree.bytesAt memory root offset length) := by
  rw [treeBytes, Tree.bytesAt]
  by_cases hplace : root.toNat + offset < 2 ^ 32
  · rw [checkedAdd_eq hplace, andThen, h.read_eq _ _ hplace hlength,
      if_pos (by simpa [addressLimit] using hplace)]
  · rw [checkedAdd_eq_none (Nat.not_lt.mp hplace), andThen,
      if_neg (by simpa [addressLimit] using hplace)]

/-- A range of the tree has the length that was asked for. -/
lemma length_bytesAt (hm : memory.Exact) {length : Nat} {bs : Bytes}
    (h : Tree.bytesAt memory root offset length = some bs) : bs.length = length := by
  simp only [Tree.bytesAt, Option.ite_none_right_eq_some] at h
  exact hm _ _ _ h.2

/-- A record of the tree is decoded without a fault. -/
lemma treeRecord_eq {α : Type} {l : Layout α} (h : reader.Serves memory) (hl : l.size < 2 ^ 64)
    (offset : Nat) :
    treeRecord reader root l offset = .ok (Tree.recordAt memory root l offset) := by
  rw [treeRecord, treeBytes_eq h hl, Tree.recordAt]
  exact andThen_eq fun bs hbs => parse_eq (length_bytesAt h.exact hbs ▸ hl)

/-- The entries of a directory are read without a fault, and their places fit. -/
lemma treeEntries_eq (h : reader.Serves memory) {first remaining number : Nat}
    (hnumber : number + remaining ≤ 2 ^ 17) :
    treeEntries reader root first remaining number =
      .ok (Tree.entriesAt memory root remaining (first + number * 8)) := by
  induction remaining generalizing number with
  | zero => rfl
  | succ remaining ih =>
    have hentry : andThen (checkedAdd 32 first (number * 8))
        (treeRecord reader root DirectoryEntry.layout) =
          .ok (Tree.recordAt memory root DirectoryEntry.layout (first + number * 8)) := by
      -- A place that overflows here is one past the last address in the model.
      by_cases hplace : first + number * 8 < 2 ^ 32
      · rw [checkedAdd_eq hplace, andThen, treeRecord_eq h (by decide)]
      · have hnone : Tree.recordAt memory root DirectoryEntry.layout (first + number * 8) =
            none := by
          rw [Tree.recordAt, Tree.bytesAt, if_neg (by simp only [addressLimit]; omega)]
          rfl
        rw [checkedAdd_eq_none (Nat.not_lt.mp hplace), andThen, hnone]
    rw [treeEntries, mul_eq (by omega), Tree.entriesAt]
    simp only [ok_bind, hentry]
    cases Tree.recordAt memory root DirectoryEntry.layout (first + number * 8) with
    | none => rfl
    | some e =>
      have hnext : first + number * 8 + DirectoryEntry.layout.size = first + (number + 1) * 8 := by
        rw [show DirectoryEntry.layout.size = 8 from rfl]
        omega
      simp only [ih (show number + 1 + remaining ≤ 2 ^ 17 by omega), hnext]
      rfl

/-- A directory of the tree is decoded without a fault. -/
lemma treeDirectory_eq (h : reader.Serves memory) (hoffset : offset < 2 ^ 31) :
    treeDirectory reader root offset = .ok (Tree.directoryAt memory root offset) := by
  rw [treeDirectory, treeRecord_eq h (by decide), Tree.directoryAt]
  cases Tree.recordAt memory root DirectoryHeader.layout offset with
  | none => rfl
  | some header =>
    have hnamed := header.numberOfNamedEntries.toNat_lt
    have hid := header.numberOfIdEntries.toNat_lt
    simp only [ok_bind]
    rw [add_eq (by omega), checkedAdd_eq (by omega)]
    simp only [ok_bind]
    rw [Nat.mod_eq_of_lt (by omega), treeEntries_eq h (by omega)]
    rfl

/-- The offset of a name has 31 bits. -/
lemma nameOffset_lt (e : DirectoryEntry) : e.nameOffset < 2 ^ 31 :=
  Nat.mod_lt _ (by decide)

/-- The offset of what an entry leads to has 31 bits. -/
lemma dataOffset_lt (e : DirectoryEntry) : e.dataOffset < 2 ^ 31 :=
  Nat.mod_lt _ (by decide)

/-- The number or name of an entry is read without a fault. -/
lemma treeId_eq (h : reader.Serves memory) (e : DirectoryEntry) :
    treeId reader root e = .ok (Tree.idOf memory root e) := by
  have hname := nameOffset_lt e
  have htext : (andThen (Tree.recordAt memory root .u16 e.nameOffset) fun length =>
      andThen (checkedAdd 32 e.nameOffset 2) fun place => do
        treeBytes reader root place (← mul 64 length.toNat 2)) =
      .ok ((Tree.recordAt memory root .u16 e.nameOffset).bind fun length =>
        Tree.bytesAt memory root (e.nameOffset + 2) (length.toNat * 2)) := by
    refine andThen_eq fun length _ => ?_
    have hlength := length.toNat_lt
    rw [checkedAdd_eq (by omega), andThen, mul_eq (by omega)]
    exact treeBytes_eq h (by omega)
  rw [treeId, treeRecord_eq h (by decide), Tree.idOf]
  cases hnamed : e.isNamed with
  | false => rfl
  | true =>
    have hu16 : Layout.u16.size = 2 := rfl
    simp only [ok_bind, htext, units_eq, Tree.nameAt, hu16]
    cases Tree.recordAt memory root .u16 e.nameOffset with
    | none => rfl
    | some length =>
      simp only [Option.bind_eq_bind, Option.bind_some]
      cases Tree.bytesAt memory root (e.nameOffset + 2) (length.toNat * 2) <;> rfl

end Tree

/-! ## Resources -/

/-- The data of a resource. -/
def payload (reader : Reader) (type name : Resource.Id) (data : DataEntry) : Step Payload := do
  match ← reader data.offsetToData.toNat data.size.toNat with
  | none => return .unavailable
  | some bytes =>
    if type = .number messageTableType then return .messages (← messageTable bytes)
    match type, name with
    | .number number, .number block =>
      if number = stringType then return .strings (← stringTable bytes block)
      return .bytes bytes
    | _, _ => return .bytes bytes

/-- The resource at which a path ends. -/
def resource (reader : Reader) (root : UInt32) (type name : Resource.Id)
    (language : DirectoryEntry) : Step (Option Entry) := do
  if language.isDirectory then return none
  match ← treeRecord reader root DataEntry.layout language.dataOffset with
  | none => return none
  | some data =>
    let payload ← payload reader type name data
    return some { type, name, language := language.id, data, payload }

/-- The directory to which an entry leads. -/
def subdirectory (reader : Reader) (root : UInt32) (e : DirectoryEntry) :
    Step (List DirectoryEntry) := do
  if !e.isDirectory then return []
  return (← treeDirectory reader root e.dataOffset).getD []

/-- The resources of one type and name. -/
def languages (reader : Reader) (root : UInt32) (type : Resource.Id) (name : DirectoryEntry) :
    Step (List Entry) := do
  let id ← treeId reader root name
  let entries ← subdirectory reader root name
  return (← entries.mapM (resource reader root type id)).filterMap fun found => found

/-- The resources of one type. -/
def names (reader : Reader) (root : UInt32) (type : DirectoryEntry) : Step (List Entry) := do
  let id ← treeId reader root type
  let entries ← subdirectory reader root type
  return (← entries.mapM (languages reader root id)).flatten

/-- The resources of the tree at an address, if the root can be read. -/
def resourceTree (reader : Reader) (root : UInt32) : Step (Option Tree) := do
  match ← treeDirectory reader root 0 with
  | none => return none
  | some types => return some ⟨(← types.mapM (names reader root)).flatten⟩

section Resources

variable {reader : Reader} {memory : Memory} {root : UInt32}

/-- The payload of a resource is read and decoded without a fault. -/
lemma payload_eq (h : reader.Serves memory) (type name : Resource.Id) (data : DataEntry) :
    payload reader type name data = .ok (Tree.payloadOf memory type name data) := by
  have hsize := data.size.toNat_lt
  rw [payload, h.read_eq _ _ data.offsetToData.toNat_lt (by omega), Tree.payloadOf]
  cases hbytes : memory data.offsetToData.toNat data.size.toNat with
  | none => rfl
  | some bytes =>
    -- No offset into fewer than `2 ^ 32` bytes overflows.
    have hlength := h.exact _ _ _ hbytes
    have hmessageTable : messageTable bytes = .ok (MessageTable.decode bytes) :=
      messageTable_eq (by omega)
    have hstringTable (block : UInt16) :
        stringTable bytes block = .ok (StringTable.decode bytes block) :=
      stringTable_eq (by omega) block
    simp only [ok_bind, hmessageTable, hstringTable]
    by_cases hmessages : type = .number messageTableType
    · rw [if_pos hmessages, if_pos hmessages]
      rfl
    · rw [if_neg hmessages, if_neg hmessages]
      cases type with
      | name _ => rfl
      | number number =>
        cases name with
        | name _ => rfl
        | number block =>
          by_cases hstrings : number = stringType
          · simp [hstrings]
          · simp [hstrings]

/-- A resource is read without a fault. -/
lemma resource_eq (h : reader.Serves memory) (type name : Resource.Id)
    (language : DirectoryEntry) :
    resource reader root type name language =
      .ok (Tree.entryOf? memory root type name language) := by
  rw [resource, treeRecord_eq h (by decide), Tree.entryOf?]
  cases language.isDirectory with
  | true => rfl
  | false =>
    simp only [ok_bind, payload_eq h]
    cases Tree.recordAt memory root DataEntry.layout language.dataOffset <;> rfl

/-- The directory below an entry is read without a fault. -/
lemma subdirectory_eq (h : reader.Serves memory) (e : DirectoryEntry) :
    subdirectory reader root e = .ok (Tree.subdirectory memory root e) := by
  rw [subdirectory, treeDirectory_eq h (dataOffset_lt e), Tree.subdirectory]
  cases e.isDirectory <;> rfl

/-- The resources below a name are found without a fault. -/
lemma languages_eq (h : reader.Serves memory) (type : Resource.Id) (name : DirectoryEntry) :
    languages reader root type name = .ok (Tree.languagesOf memory root type name) := by
  rw [languages, treeId_eq h, subdirectory_eq h]
  simp only [ok_bind]
  rw [mapM_eq fun e _ => resource_eq h _ _ e]
  simp only [ok_bind, pure_eq, List.filterMap_map]
  rfl

/-- The resources below a type are found without a fault. -/
lemma names_eq (h : reader.Serves memory) (type : DirectoryEntry) :
    names reader root type = .ok (Tree.namesOf memory root type) := by
  rw [names, treeId_eq h, subdirectory_eq h]
  simp only [ok_bind]
  rw [mapM_eq fun e _ => languages_eq h _ e]
  rfl

/-- The tree is decoded without a fault. -/
lemma resourceTree_eq (h : reader.Serves memory) (root : UInt32) :
    resourceTree reader root = .ok (Tree.decode memory root) := by
  rw [resourceTree, treeDirectory_eq h (by decide), Tree.decode]
  cases Tree.directoryAt memory root 0 with
  | none => rfl
  | some types =>
    simp only [ok_bind]
    rw [mapM_eq fun e _ => names_eq h e]
    rfl

end Resources

/-- The resources. -/
def resources (e : Executable) : Step (Option Tree) := do
  match ← directory e DirectorySlot.resources.index with
  | none => return none
  | some (range, _) => resourceTree (memory e) range.address

/-- The resources of an executable are decoded without a fault. -/
theorem resources_eq {e : Executable} (h : Fits e.image) : resources e = .ok e.resources := by
  rw [resources, directory_eq h, Executable.resources]
  cases e.directoryOf .resources with
  | none => rfl
  | some found => exact resourceTree_eq (memory_serves h) found.1.address

end PeCoff.Machine
