import Mathlib
import PeCoff.Proofs.Memory

/-!
# Routes to resources

A path names an entry of a directory of types, one of a directory of names and one of a directory
of languages, each by its index. What must be read along a path for it to lead to a resource is the
structure `Leads`, and what is asked of the memory is `Asks`. The main statements are
`exists_leads_iff`, which ties a path to what is decoded, and `Leads.congr`: a path leads to its
resource in any memory that answers the same where the path asks.
-/

namespace PeCoff.Resource

/-- The indices of the entries that lead to a resource. -/
structure Path where
  type : Nat
  name : Nat
  language : Nat
  deriving DecidableEq

/-- The entries that are met on a path. -/
structure Route where
  type : DirectoryEntry
  name : DirectoryEntry
  language : DirectoryEntry

section

variable (memory : Memory) (root : UInt32)

/-- A record lies at an offset from the root, at an address that does not wrap. -/
def RecordAt {α : Type} (l : Layout α) (offset : Nat) (a : α) : Prop :=
  root.toNat + offset < 2 ^ 32 ∧ memory.record? l (root.toNat + offset) = some a

/-- A directory has an entry at an index. It declares the entry, and all entries before it can be
read as well. -/
structure EntryAt (offset index : Nat) (e : DirectoryEntry) : Prop where
  header : ∃ h, RecordAt memory root DirectoryHeader.layout offset h ∧
    index < h.numberOfNamedEntries.toNat + h.numberOfIdEntries.toNat
  before : ∀ i < index, ∃ e', RecordAt memory root DirectoryEntry.layout (offset + 16 + 8 * i) e'
  entry : RecordAt memory root DirectoryEntry.layout (offset + 16 + 8 * index) e

/-- The text at an offset, its length in units in front of it. -/
def TextAt (offset : Nat) (units : List UInt16) : Prop :=
  ∃ length bytes, RecordAt memory root .u16 offset length ∧
    root.toNat + (offset + 2) < 2 ^ 32 ∧
    memory (root.toNat + (offset + 2)) (length.toNat * 2) = some bytes ∧
    units = Text.Utf16.units bytes

/-- An entry is called by its number or by its text, which is empty when it cannot be read. -/
inductive Called (e : DirectoryEntry) : Id → Prop
  | number (h : ¬ e.isNamed) : Called e (.number e.id)
  | name {units : List UInt16} (h : e.isNamed) (htext : TextAt memory root e.nameOffset units) :
    Called e (.name units)
  | unreadable (h : e.isNamed) (hnone : ∀ units, ¬ TextAt memory root e.nameOffset units) :
    Called e (.name [])

/-- What a resource carries is selected by its type: blocks of strings have type 6 and a number for
their name, message tables have type 11. -/
inductive Carries (type name : Id) (data : DataEntry) : Payload → Prop
  | unavailable (h : memory data.offsetToData.toNat data.size.toNat = none) :
    Carries type name data .unavailable
  | strings {bytes : Bytes} {block : UInt16}
    (h : memory data.offsetToData.toNat data.size.toNat = some bytes)
    (htype : type = .number 6) (hname : name = .number block) :
    Carries type name data (.strings (StringTable.decode bytes block))
  | messages {bytes : Bytes} (h : memory data.offsetToData.toNat data.size.toNat = some bytes)
    (htype : type = .number 11) : Carries type name data (.messages (MessageTable.decode bytes))
  | bytes {bytes : Bytes} (h : memory data.offsetToData.toNat data.size.toNat = some bytes)
    (htype : type ≠ .number 11) (hname : type = .number 6 → ∀ block, name ≠ .number block) :
    Carries type name data (.bytes bytes)

/-- A path leads to a resource over a route: two directories and then the place of the data. -/
structure Leads (p : Path) (route : Route) (r : Entry) : Prop where
  type : EntryAt memory root 0 p.type route.type
  type_isDirectory : route.type.isDirectory
  name : EntryAt memory root route.type.dataOffset p.name route.name
  name_isDirectory : route.name.isDirectory
  language : EntryAt memory root route.name.dataOffset p.language route.language
  language_isData : ¬ route.language.isDirectory
  data : RecordAt memory root DataEntry.layout route.language.dataOffset r.data
  type_called : Called memory root route.type r.type
  name_called : Called memory root route.name r.name
  language_called : r.language = route.language.id
  payload : Carries memory r.type r.name r.data r.payload

/-! ## What is decoded -/

variable {memory root}

/-- A range of the tree is that of the memory at an address without overflow. -/
lemma bytesAt_iff {offset n : Nat} {bs : Bytes} : Tree.bytesAt memory root offset n = some bs ↔
    root.toNat + offset < 2 ^ 32 ∧ memory (root.toNat + offset) n = some bs :=
  Option.ite_none_right_eq_some

/-- A record of the tree lies where it is decoded. -/
lemma recordAt_iff {α : Type} {l : Layout α} {offset : Nat} {a : α} :
    Tree.recordAt memory root l offset = some a ↔ RecordAt memory root l offset a := by
  simp only [Tree.recordAt, Option.bind_eq_some_iff, bytesAt_iff, RecordAt, Memory.record?,
    and_assoc, exists_and_left]

/-- The entries of a directory are found one after the other, up to the first that cannot be
read. -/
lemma getElem?_entriesAt {count offset index : Nat} {e : DirectoryEntry} :
    (Tree.entriesAt memory root count offset)[index]? = some e ↔
      index < count ∧
        (∀ i < index, ∃ e', RecordAt memory root DirectoryEntry.layout (offset + 8 * i) e') ∧
        RecordAt memory root DirectoryEntry.layout (offset + 8 * index) e := by
  induction count generalizing offset index with
  | zero => simp [Tree.entriesAt]
  | succ count ih =>
    rw [Tree.entriesAt]
    cases hfirst : Tree.recordAt memory root DirectoryEntry.layout offset with
    | none =>
      have hnone : ∀ e', ¬ RecordAt memory root DirectoryEntry.layout offset e' := by
        intro e' he'
        rw [recordAt_iff.mpr he'] at hfirst
        cases hfirst
      -- The entries end before one that cannot be read, whatever lies behind it.
      refine iff_of_false (by simp) fun ⟨_, hbefore, he⟩ => ?_
      cases index with
      | zero => exact hnone e he
      | succ index =>
        obtain ⟨e', he'⟩ := hbefore 0 (Nat.succ_pos index)
        exact hnone e' he'
    | some first =>
      have hrecord := recordAt_iff.mp hfirst
      cases index with
      | zero =>
        simp only [List.getElem?_cons_zero, ← recordAt_iff, Nat.mul_zero, Nat.add_zero, hfirst]
        simp
      | succ index =>
        -- An index behind the first entry is one of the rest, which starts eight bytes later.
        have hshift (i : Nat) : offset + DirectoryEntry.layout.size + 8 * i = offset + 8 * (i + 1) :=
          Nat.add_right_comm offset 8 (8 * i)
        simp only [List.getElem?_cons_succ, ih, hshift, Nat.succ_lt_succ_iff,
          Nat.forall_lt_succ_left, Nat.mul_zero, Nat.add_zero]
        exact and_congr_right fun _ => and_congr_left' (and_iff_right ⟨first, hrecord⟩).symm

/-- The entries of the directory at an offset. There are none when its header cannot be read. -/
lemma getElem?_directoryAt {offset index : Nat} {e : DirectoryEntry} :
    ((Tree.directoryAt memory root offset).getD [])[index]? = some e ↔
      EntryAt memory root offset index e := by
  rw [Tree.directoryAt]
  cases hheader : Tree.recordAt memory root DirectoryHeader.layout offset with
  | none =>
    refine iff_of_false (by simp) fun h => ?_
    obtain ⟨header, hrecord, -⟩ := h.header
    rw [recordAt_iff.mpr hrecord] at hheader
    cases hheader
  | some header =>
    have hrecord := recordAt_iff.mp hheader
    rw [Option.map_some, Option.getD_some, getElem?_entriesAt]
    constructor
    · rintro ⟨hlt, hbefore, hentry⟩
      exact ⟨⟨header, hrecord, hlt⟩, hbefore, hentry⟩
    · rintro ⟨⟨header', hrecord', hlt⟩, hbefore, hentry⟩
      obtain rfl := Option.some.inj (hrecord.2.symm.trans hrecord'.2)
      exact ⟨hlt, hbefore, hentry⟩

/-- Below an entry lie the entries of its directory. -/
lemma getElem?_subdirectory {e e' : DirectoryEntry} {index : Nat} :
    (Tree.subdirectory memory root e)[index]? = some e' ↔
      e.isDirectory ∧ EntryAt memory root e.dataOffset index e' := by
  rw [Tree.subdirectory, ← getElem?_directoryAt]
  split
  · simp [*]
  · simp [*]

/-- A name lies where it is decoded. -/
lemma nameAt_iff {offset : Nat} {units : List UInt16} :
    Tree.nameAt memory root offset = some units ↔ TextAt memory root offset units := by
  simp only [Tree.nameAt, bind, pure, Option.bind_eq_some_iff, recordAt_iff, bytesAt_iff,
    Option.some.injEq]
  constructor
  · rintro ⟨length, hlength, bytes, ⟨haddress, hbytes⟩, rfl⟩
    exact ⟨length, bytes, hlength, haddress, hbytes, rfl⟩
  · rintro ⟨length, bytes, hlength, haddress, hbytes, rfl⟩
    exact ⟨length, hlength, bytes, ⟨haddress, hbytes⟩, rfl⟩

/-- An entry is called by its number, or by its name as far as it can be read. -/
lemma called_iff {e : DirectoryEntry} {id : Id} :
    Called memory root e id ↔ id = Tree.idOf memory root e := by
  rw [Tree.idOf]
  by_cases hnamed : e.isNamed
  · rw [if_pos hnamed]
    -- Whether the name can be read decides between the last two ways of `Called`.
    cases htext : Tree.nameAt memory root e.nameOffset with
    | none =>
      have hnone : ∀ units, ¬ TextAt memory root e.nameOffset units := by
        intro units hunits
        rw [nameAt_iff.mpr hunits] at htext
        cases htext
      constructor
      · rintro (hnumber | ⟨_, hunits⟩ | _)
        · exact absurd hnamed hnumber
        · exact absurd hunits (hnone _)
        · rfl
      · rintro rfl
        exact .unreadable hnamed hnone
    | some units =>
      constructor
      · rintro (hnumber | ⟨_, hunits⟩ | ⟨_, hnone⟩)
        · exact absurd hnamed hnumber
        · rw [nameAt_iff.mpr hunits] at htext
          rw [Option.some.inj htext]
          rfl
        · exact absurd (nameAt_iff.mp htext) (hnone units)
      · rintro rfl
        exact .name hnamed (nameAt_iff.mp htext)
  · rw [if_neg hnamed]
    constructor
    · rintro (_ | ⟨hname, _⟩ | ⟨hname, _⟩)
      · rfl
      · exact absurd hname hnamed
      · exact absurd hname hnamed
    · rintro rfl
      exact .number hnamed

/-- A resource carries what is decoded of its bytes. -/
lemma carries_iff {type name : Id} {data : DataEntry} {payload : Payload} :
    Carries memory type name data payload ↔ payload = Tree.payloadOf memory type name data := by
  constructor
  · rintro (h | ⟨h, rfl, rfl⟩ | ⟨h, rfl⟩ | ⟨h, htype, hname⟩)
    · rw [Tree.payloadOf, h]
    · rw [Tree.payloadOf, h]
      rfl
    · rw [Tree.payloadOf, h]
      rfl
    · simp only [Tree.payloadOf, h, if_neg (show type ≠ .number messageTableType from htype)]
      split
      · rename_i number block
        have hnumber : number ≠ stringType := by
          rintro rfl
          exact hname rfl block rfl
        rw [if_neg hnumber]
      · rfl
  · rintro rfl
    cases h : memory data.offsetToData.toNat data.size.toNat with
    | none =>
      simp only [Tree.payloadOf, h]
      exact .unavailable h
    | some bytes =>
      simp only [Tree.payloadOf, h]
      split_ifs with htype
      · exact .messages h htype
      · split
        · split_ifs with hnumber
          · exact .strings h (congrArg Id.number hnumber) rfl
          · exact .bytes h htype fun h6 => absurd (Id.number.inj h6) hnumber
        -- One of the two ids is a name here, and a block of strings needs a number.
        · rename_i hother
          exact .bytes h htype fun h6 block hblock => hother _ _ h6 hblock

/-- A resource is made of an entry of the last level whose data can be read. -/
lemma entryOf?_eq_some_iff {type name : Id} {language : DirectoryEntry} {r : Entry} :
    Tree.entryOf? memory root type name language = some r ↔
      ¬ language.isDirectory ∧ RecordAt memory root DataEntry.layout language.dataOffset r.data ∧
        r.type = type ∧ r.name = name ∧ r.language = language.id ∧
        r.payload = Tree.payloadOf memory type name r.data := by
  simp only [Tree.entryOf?, bind, pure, Option.bind_eq_some_iff, recordAt_iff, Option.some.injEq,
    Option.guard_eq_some', Bool.not_eq_true', Bool.not_eq_true]
  constructor
  · rintro ⟨-, hdirectory, data, hdata, rfl⟩
    exact ⟨hdirectory, hdata, rfl, rfl, rfl, rfl⟩
  · rintro ⟨hdirectory, hdata, rfl, rfl, hlanguage, hpayload⟩
    exact ⟨(), hdirectory, r.data, hdata, by rw [← hlanguage, ← hpayload]⟩

/-- The paths of a tree are those of its three levels of entries. -/
lemma exists_leads_iff {types : List DirectoryEntry} {p : Path} {r : Entry}
    (htypes : Tree.directoryAt memory root 0 = some types) :
    (∃ route, Leads memory root p route r) ↔
      ∃ type name language, types[p.type]? = some type ∧
        (Tree.subdirectory memory root type)[p.name]? = some name ∧
        (Tree.subdirectory memory root name)[p.language]? = some language ∧
        Tree.entryOf? memory root (Tree.idOf memory root type) (Tree.idOf memory root name)
          language = some r := by
  -- The entries of the root are those of `types`, since it can be read.
  have htype (e : DirectoryEntry) :
      types[p.type]? = some e ↔ EntryAt memory root 0 p.type e := by
    rw [← getElem?_directoryAt, htypes, Option.getD_some]
  simp only [htype, getElem?_subdirectory, entryOf?_eq_some_iff]
  constructor
  · rintro ⟨route, h⟩
    have hpayload := carries_iff.mp h.payload
    have htypeId := called_iff.mp h.type_called
    have hnameId := called_iff.mp h.name_called
    rw [htypeId, hnameId] at hpayload
    exact ⟨route.type, route.name, route.language, h.type, ⟨h.type_isDirectory, h.name⟩,
      ⟨h.name_isDirectory, h.language⟩, h.language_isData, h.data, htypeId, hnameId,
      h.language_called, hpayload⟩
  · rintro ⟨type, name, language, h1, ⟨hdirectory, h2⟩, ⟨hdirectory', h3⟩, hdata, hrecord, htypeId,
      hnameId, hlanguage, hpayload⟩
    rw [← htypeId, ← hnameId] at hpayload
    exact ⟨⟨type, name, language⟩, h1, hdirectory, h2, hdirectory', h3, hdata, hrecord,
      called_iff.mpr htypeId, called_iff.mpr hnameId, hlanguage, carries_iff.mpr hpayload⟩

/-! ## What is asked of the memory -/

/-- The requests for the entry at an index of a directory. -/
inductive AsksEntry (root : UInt32) (offset index : Nat) : (address length : Nat) → Prop
  | header : AsksEntry root offset index (root.toNat + offset) 16
  | entry {i : Nat} (h : i ≤ index) :
    AsksEntry root offset index (root.toNat + (offset + 16 + 8 * i)) 8

/-- The requests for the text by which an entry is called. -/
inductive AsksText (memory : Memory) (root : UInt32) (e : DirectoryEntry) :
    (address length : Nat) → Prop
  | length (h : e.isNamed) : AsksText memory root e (root.toNat + e.nameOffset) 2
  | units {length : UInt16} (h : e.isNamed)
    (hlength : RecordAt memory root .u16 e.nameOffset length) :
    AsksText memory root e (root.toNat + (e.nameOffset + 2)) (length.toNat * 2)

/-- The requests on a path to a resource. -/
inductive Asks (memory : Memory) (root : UInt32) (p : Path) (route : Route) (r : Entry) :
    (address length : Nat) → Prop
  | type {address length : Nat} (h : AsksEntry root 0 p.type address length) :
    Asks memory root p route r address length
  | name {address length : Nat} (h : AsksEntry root route.type.dataOffset p.name address length) :
    Asks memory root p route r address length
  | language {address length : Nat}
    (h : AsksEntry root route.name.dataOffset p.language address length) :
    Asks memory root p route r address length
  | typeText {address length : Nat} (h : AsksText memory root route.type address length) :
    Asks memory root p route r address length
  | nameText {address length : Nat} (h : AsksText memory root route.name address length) :
    Asks memory root p route r address length
  | data : Asks memory root p route r (root.toNat + route.language.dataOffset) 16
  | payload : Asks memory root p route r r.data.offsetToData.toNat r.data.size.toNat

variable {memory' : Memory}

/-- A record depends on its own bytes only. -/
lemma recordAt_congr {α : Type} {l : Layout α} {offset : Nat} {a : α}
    (h : memory' (root.toNat + offset) l.size = memory (root.toNat + offset) l.size) :
    RecordAt memory' root l offset a ↔ RecordAt memory root l offset a := by
  rw [RecordAt, RecordAt, Memory.record?, Memory.record?, h]

/-- An entry depends only on what is asked for it. -/
lemma EntryAt.congr {offset index : Nat} {e : DirectoryEntry}
    (he : EntryAt memory root offset index e)
    (h : ∀ a n, AsksEntry root offset index a n → memory' a n = memory a n) :
    EntryAt memory' root offset index e where
  header := by
    obtain ⟨header, hrecord, hlt⟩ := he.header
    exact ⟨header, (recordAt_congr (h _ _ .header)).mpr hrecord, hlt⟩
  before i hi := by
    obtain ⟨e', he'⟩ := he.before i hi
    exact ⟨e', (recordAt_congr (h _ _ (.entry hi.le))).mpr he'⟩
  entry := (recordAt_congr (h _ _ (.entry le_rfl))).mpr he.entry

/-- The place of the units depends on a length that is read first. -/
lemma textAt_congr {e : DirectoryEntry} {units : List UInt16} (hnamed : e.isNamed)
    (h : ∀ a n, AsksText memory root e a n → memory' a n = memory a n) :
    TextAt memory' root e.nameOffset units ↔ TextAt memory root e.nameOffset units := by
  have hlength (length : UInt16) : RecordAt memory' root .u16 e.nameOffset length ↔
      RecordAt memory root .u16 e.nameOffset length := recordAt_congr (h _ _ (.length hnamed))
  simp only [TextAt, hlength]
  constructor
  · rintro ⟨length, bytes, hrecord, haddress, hbytes, hunits⟩
    rw [h _ _ (.units hnamed hrecord)] at hbytes
    exact ⟨length, bytes, hrecord, haddress, hbytes, hunits⟩
  · rintro ⟨length, bytes, hrecord, haddress, hbytes, hunits⟩
    rw [← h _ _ (.units hnamed hrecord)] at hbytes
    exact ⟨length, bytes, hrecord, haddress, hbytes, hunits⟩

/-- A name depends only on what is asked for it. -/
lemma Called.congr {e : DirectoryEntry} {id : Id} (he : Called memory root e id)
    (h : ∀ a n, AsksText memory root e a n → memory' a n = memory a n) :
    Called memory' root e id := by
  cases he with
  | number hnamed => exact .number hnamed
  | name hnamed htext => exact .name hnamed ((textAt_congr hnamed h).mpr htext)
  | unreadable hnamed hnone =>
    exact .unreadable hnamed fun units hunits => hnone units ((textAt_congr hnamed h).mp hunits)

/-- A payload depends on its own bytes only. -/
lemma Carries.congr {type name : Id} {data : DataEntry} {payload : Payload}
    (hp : Carries memory type name data payload)
    (h : memory' data.offsetToData.toNat data.size.toNat =
      memory data.offsetToData.toNat data.size.toNat) :
    Carries memory' type name data payload := by
  rw [carries_iff, Tree.payloadOf] at hp ⊢
  rwa [h]

/-- A path leads to its resource in any memory that gives the same answers to its requests, whatever
becomes of the rest of the tree. -/
lemma Leads.congr {p : Path} {route : Route} {r : Entry} (hr : Leads memory root p route r)
    (h : ∀ a n, Asks memory root p route r a n → memory' a n = memory a n) :
    Leads memory' root p route r where
  type := hr.type.congr fun a n ha => h a n (.type ha)
  type_isDirectory := hr.type_isDirectory
  name := hr.name.congr fun a n ha => h a n (.name ha)
  name_isDirectory := hr.name_isDirectory
  language := hr.language.congr fun a n ha => h a n (.language ha)
  language_isData := hr.language_isData
  data := (recordAt_congr (h _ _ .data)).mpr hr.data
  type_called := hr.type_called.congr fun a n ha => h a n (.typeText ha)
  name_called := hr.name_called.congr fun a n ha => h a n (.nameText ha)
  language_called := hr.language_called
  payload := hr.payload.congr (h _ _ .payload)

/-- A record stays when more can be read. -/
lemma RecordAt.mono (hle : ∀ a n bs, memory a n = some bs → memory' a n = some bs) {α : Type}
    {l : Layout α} {offset : Nat} {a : α} (h : RecordAt memory root l offset a) :
    RecordAt memory' root l offset a := by
  obtain ⟨haddress, hrecord⟩ := h
  obtain ⟨bs, hbs, hdecode⟩ := Option.bind_eq_some_iff.mp hrecord
  exact ⟨haddress, Option.bind_eq_some_iff.mpr ⟨bs, hle _ _ _ hbs, hdecode⟩⟩

/-- An entry stays when more can be read. -/
lemma EntryAt.mono (hle : ∀ a n bs, memory a n = some bs → memory' a n = some bs)
    {offset index : Nat} {e : DirectoryEntry} (he : EntryAt memory root offset index e) :
    EntryAt memory' root offset index e where
  header := he.header.imp fun _ h => h.imp_left (.mono hle)
  before i hi := (he.before i hi).imp fun _ => .mono hle
  entry := he.entry.mono hle

/-- A memory that answers more has no fewer paths, but its texts and data may be others. -/
lemma Leads.exists_of_le (hle : ∀ a n bs, memory a n = some bs → memory' a n = some bs) {p : Path}
    {route : Route} {r : Entry} (hr : Leads memory root p route r) :
    ∃ r', Leads memory' root p route r' := by
  let type := Tree.idOf memory' root route.type
  let name := Tree.idOf memory' root route.name
  exact ⟨⟨type, name, route.language.id, r.data, Tree.payloadOf memory' type name r.data⟩,
    { type := hr.type.mono hle
      type_isDirectory := hr.type_isDirectory
      name := hr.name.mono hle
      name_isDirectory := hr.name_isDirectory
      language := hr.language.mono hle
      language_isData := hr.language_isData
      data := hr.data.mono hle
      type_called := called_iff.mpr rfl
      name_called := called_iff.mpr rfl
      language_called := rfl
      payload := carries_iff.mpr rfl }⟩

end

end PeCoff.Resource
