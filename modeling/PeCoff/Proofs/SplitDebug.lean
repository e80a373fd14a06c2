import Mathlib
import PeCoff.Proofs.Detection
import PeCoff.Proofs.Machine.DebugFiles

/-!
# Tables of split debug files

A split debug file has its section table behind the header, and its debug directory behind the names
that follow the section table. The main statement is `DebugFile.exists_tables`: each table is there
as a whole or not at all, depending on where it ends, and each of its entries is decoded at its own
offset.
-/

namespace PeCoff

/-! ## Tables in a file -/

/-- A row consists of the bytes behind the rows before it. -/
lemma Bytes.eq_of_getElem?_exactRows {n k : Nat} {bs row : Bytes}
    (h : (bs.exactRows n)[k]? = some row) :
    k < bs.length / n ∧ row = (bs.drop (n * k)).take n := by
  obtain ⟨hk, hrow⟩ := List.getElem?_eq_some_iff.mp h
  have hcount : (bs.exactRows n).length = bs.length / n := length_takeRows _ _ _
  exact ⟨hcount ▸ hk, hrow.symm.trans (getElem_takeRows n _ bs k hk)⟩

namespace Image

variable {image : Image} {offset count k : Nat} {α : Type} {l : Layout α} {bs : Bytes}

/-- What a range of a file is read as: its bytes, if the file holds all of them. -/
def IsPiece (image : Image) (offset length : Nat) (raw : Option Bytes) : Prop :=
  ∀ bs, raw = some bs ↔
    offset + length ≤ image.size ∧ bs = (image.toList.drop offset).take length

/-- What is read is a piece of the file. -/
lemma isPiece_read (image : Image) (offset length : Nat) :
    image.IsPiece offset length (image.read offset length) :=
  image.read_eq_some_iff offset length

/-- A range can be read when it ends within the file. -/
lemma isSome_read {length : Nat} : (image.read offset length).isSome ↔
    offset + length ≤ image.size := by
  rw [read, Option.isSome_ite]

/-- As many records are decoded as were read. -/
lemma length_decodeAll_of_read (hl : 0 < l.size)
    (hread : image.read offset (count * l.size) = some bs) : (l.decodeAll bs).length = count := by
  rw [Layout.length_decodeAll, length_read hread, Nat.mul_div_cancel _ hl]

/-- Each record of a table lies as many records behind its start as come before it. -/
lemma record?_of_getElem?_decodeAll {a : α} (hread : image.read offset (count * l.size) = some bs)
    (ha : (l.decodeAll bs)[k]? = some a) : image.record? l (offset + l.size * k) = some a := by
  rw [Layout.decodeAll, List.getElem?_map, Option.map_eq_some_iff] at ha
  obtain ⟨row, hrow, rfl⟩ := ha
  obtain ⟨hk, rfl⟩ := Bytes.eq_of_getElem?_exactRows hrow
  rw [length_read hread] at hk
  have hend : l.size * k + l.size ≤ count * l.size :=
    calc l.size * k + l.size = (k + 1) * l.size := by rw [Nat.succ_mul, Nat.mul_comm]
      _ ≤ count * l.size / l.size * l.size := Nat.mul_le_mul_right _ hk
      _ ≤ count * l.size := Nat.div_mul_le_self _ _
  rw [record?, read_piece hread hend, Option.map_some]

end Image

/-! ## Entries of the debug directory -/

namespace DebugInfo

/-- What is read of a piece of debug information of a type. The text of type four is there when its
fixed fields are, and nothing is read of types without a meaning. -/
inductive Payload.ReadAs : (debugType : Nat) → (raw : Option Bytes) → Payload → Prop
  | coff (raw : Option Bytes) : ReadAs 1 raw (.coff raw)
  | codeView (raw : Option Bytes) : ReadAs 2 raw (.codeView raw)
  | framePointers (raw : Option Bytes) : ReadAs 3 raw (.framePointers raw)
  | misc {bs : Bytes} {m : Misc} (h : Misc.decode bs = .ok m) : ReadAs 4 (some bs) (.misc m)
  | miscAbsent : ReadAs 4 .none .miscUnavailable
  | miscShort {bs : Bytes} (h : bs.length < 12) : ReadAs 4 (some bs) .miscUnavailable
  | none {debugType : Nat} (h : debugType = 0 ∨ 4 < debugType) (raw : Option Bytes) :
    ReadAs debugType raw .none

/-- An entry is decoded at an offset of a file, and its piece is read of the same file, whatever
section the piece lies in. -/
structure EntryAt (image : Image) (offset : Nat) (entry : Entry) : Prop where
  directory : image.record? Directory.layout offset = some entry.directory
  payload : ∃ raw,
    image.IsPiece entry.directory.pointerToRawData.toNat entry.directory.sizeOfData.toNat raw ∧
      entry.payload.ReadAs entry.directory.debugType.toNat raw

/-- A miscellaneous record is an error only when it is shorter than its header. -/
lemma Misc.length_lt_of_decode {bs : Bytes} {error : DecodeError} (h : decode bs = .error error) :
    bs.length < 12 := by
  rw [decode] at h
  split at h
  next hshort => exact hshort
  next => cases h

/-- What a debug entry points at is read as its type says. -/
lemma readAs_payloadOf (file : Memory) (d : Directory) : (Entry.payloadOf file d).ReadAs
    d.debugType.toNat (file d.pointerToRawData.toNat d.sizeOfData.toNat) := by
  rw [Entry.payloadOf]
  rcases d.debugType.toNat with _ | _ | _ | _ | _ | debugType
  · exact .none (Or.inl rfl) _
  · exact .coff _
  · exact .codeView _
  · exact .framePointers _
  · cases hraw : file d.pointerToRawData.toNat d.sizeOfData.toNat with
    | none => exact .miscAbsent
    | some bs =>
      simp only [Option.bind_some]
      cases hmisc : Misc.decode bs with
      | error error => exact .miscShort (Misc.length_lt_of_decode hmisc)
      | ok m => exact .misc hmisc
  · exact .none (Or.inr (by omega)) _

variable {image : Image} {offset count i : Nat} {bs : Bytes} {entry : Entry}

/-- The entries of a debug directory lie one after the other. -/
lemma entryAt_of_getElem?_decodeAll
    (hread : image.read offset (count * Directory.layout.size) = some bs)
    (hentry : (Entry.decodeAll image.read bs)[i]? = some entry) :
    EntryAt image (offset + Directory.layout.size * i) entry := by
  rw [Entry.decodeAll, List.getElem?_map, Option.map_eq_some_iff] at hentry
  obtain ⟨d, hd, rfl⟩ := hentry
  exact ⟨Image.record?_of_getElem?_decodeAll hread hd, _, image.isPiece_read _ _,
    readAs_payloadOf _ _⟩

end DebugInfo

/-! ## The header -/

namespace DebugHeader

/-- The numbers that place the tables lie at their offsets of the header. -/
lemma counts_readAt (f : Nat → UInt8) :
    (fields.readAt f 2).numberOfSections = Layout.u32.readAt f 24 ∧
    (fields.readAt f 2).exportedNamesSize = Layout.u32.readAt f 28 ∧
    (fields.readAt f 2).debugDirectorySize = Layout.u32.readAt f 32 := by
  rw [fields, Layout.readAt_equiv]
  simp only [Layout.readAt_pair]
  exact ⟨rfl, rfl, rfl⟩

end DebugHeader

namespace DebugFile

variable {image : Image}

/-- The file with the tables that a header declares. -/
def ofHeader (image : Image) (h : DebugHeader) : DebugFile where
  image := image
  header := h
  sections := sectionTable image h
  debugEntries := (sectionTable image h).bind fun _ => debugDirectory image h

/-- A file that starts with the two letters has the signature of a debug file. -/
lemma read_u16_of_prefix (hsignature : [68, 73] <+: image.toList) :
    Layout.u16.read image.toList.zeroExtended = FileKind.debugSignature := by
  obtain ⟨rest, hrest⟩ := hsignature
  have hbytes : Layout.u16.write FileKind.debugSignature = [68, 73] := by decide
  rw [← hrest, ← hbytes, Layout.read_write_append]

/-- A file with the signature and a whole header is decoded. -/
lemma parse_of_signature (hsize : 48 ≤ image.size) (hsignature : [68, 73] <+: image.toList) :
    parse image = .ok (ofHeader image (DebugHeader.fields.readAt image.toList.zeroExtended 2)) := by
  have hread : image.read 0 DebugHeader.size = some (image.toList.take 48) :=
    (image.read_eq_some_iff 0 48 _).mpr ⟨by omega, by rw [List.drop_zero]⟩
  have hlength : (image.toList.take 48).length = 48 :=
    List.length_take_of_le (by rwa [Image.length_toList])
  have hmagic : Layout.u16.read (Bytes.zeroExtended (image.toList.take 48)) =
      FileKind.debugSignature := by
    rw [Layout.u16.read_take _ (by decide), read_u16_of_prefix hsignature]
  have hfields : DebugHeader.fields.readAt (Bytes.zeroExtended (image.toList.take 48)) 2 =
      DebugHeader.fields.readAt image.toList.zeroExtended 2 :=
    Layout.readAt_take (by decide)
  have hheader : DebugHeader.decode (image.toList.take 48) =
      .ok (DebugHeader.fields.readAt image.toList.zeroExtended 2) := by
    rw [DebugHeader.decode, if_neg (by rw [hlength]; decide), if_neg (not_not.mpr hmagic),
      ← hfields]
    rfl
  simp only [parse, Image.readExact, hread, bind, Except.bind, hheader]
  rfl

/-! ## The tables -/

/-- The tables of a split debug file lie in the file behind its header, the section table before the
exported names and the debug directory behind them. -/
structure TablesIn (image : Image) (d : DebugFile) : Prop where
  numberOfSections : image.record? .u32 24 = some d.header.numberOfSections
  exportedNamesSize : image.record? .u32 28 = some d.header.exportedNamesSize
  debugDirectorySize : image.record? .u32 32 = some d.header.debugDirectorySize
  isSome_sections : d.sections.isSome ↔ 48 + 40 * d.header.numberOfSections.toNat ≤ image.size
  length_sections : ∀ ss, d.sections = some ss → ss.length = d.header.numberOfSections.toNat
  sections : ∀ ss k s, d.sections = some ss → ss[k]? = some s →
    image.record? SectionHeader.layout (48 + 40 * k) = some s
  isSome_debugEntries : d.debugEntries.isSome ↔ d.sections.isSome ∧
    48 + 40 * d.header.numberOfSections.toNat + d.header.exportedNamesSize.toNat
      + 28 * (d.header.debugDirectorySize.toNat / 28) ≤ image.size
  length_debugEntries : ∀ es, d.debugEntries = some es →
    es.length = d.header.debugDirectorySize.toNat / 28
  debugEntries : ∀ es i entry, d.debugEntries = some es → es[i]? = some entry →
    DebugInfo.EntryAt image (48 + 40 * d.header.numberOfSections.toNat
      + d.header.exportedNamesSize.toNat + 28 * i) entry

/-- The three sizes are those at their places in the file. -/
lemma TablesIn.counts_eq {d : DebugFile} (h : d.TablesIn image) {n x m : UInt32}
    (hn : image.record? .u32 24 = some n) (hx : image.record? .u32 28 = some x)
    (hm : image.record? .u32 32 = some m) :
    d.header.numberOfSections = n ∧ d.header.exportedNamesSize = x ∧
      d.header.debugDirectorySize = m :=
  ⟨Option.some.inj (h.numberOfSections.symm.trans hn),
    Option.some.inj (h.exportedNamesSize.symm.trans hx),
    Option.some.inj (h.debugDirectorySize.symm.trans hm)⟩

/-- The debug directory lies behind the section table and the exported names. -/
lemma debugDirectoryOffset_eq (h : DebugHeader) : h.debugDirectoryOffset =
    48 + 40 * h.numberOfSections.toNat + h.exportedNamesSize.toNat := by
  have hsize : SectionHeader.layout.size = 40 := by decide
  rw [DebugHeader.debugDirectoryOffset, hsize, Nat.mul_comm]
  rfl

/-- The tables of a debug file are those that its header declares. -/
lemma tablesIn_ofHeader (hsize : 48 ≤ image.size) : (ofHeader image
    (DebugHeader.fields.readAt image.toList.zeroExtended 2)).TablesIn image := by
  have hrow : SectionHeader.layout.size = 40 := by decide
  have hentry : DebugInfo.Directory.layout.size = 28 := rfl
  have hword : Layout.u32.size = 4 := rfl
  obtain ⟨hsections, hnames, hdirectory⟩ :=
    DebugHeader.counts_readAt image.toList.zeroExtended
  -- Only these three counts of the header matter from here on.
  generalize DebugHeader.fields.readAt image.toList.zeroExtended 2 = h at *
  constructor
  case numberOfSections => exact Image.record?_eq_some_iff.mpr ⟨by omega, hsections.symm⟩
  case exportedNamesSize => exact Image.record?_eq_some_iff.mpr ⟨by omega, hnames.symm⟩
  case debugDirectorySize => exact Image.record?_eq_some_iff.mpr ⟨by omega, hdirectory.symm⟩
  case isSome_sections =>
    simp only [ofHeader, sectionTable]
    rw [Option.isSome_map, Image.isSome_read, hrow, Nat.mul_comm 40]
    rfl
  case length_sections =>
    intro ss hss
    obtain ⟨bs, hread, rfl⟩ := Option.map_eq_some_iff.mp hss
    exact Image.length_decodeAll_of_read (by decide) hread
  case sections =>
    intro ss k s hss hs
    obtain ⟨bs, hread, rfl⟩ := Option.map_eq_some_iff.mp hss
    rw [← hrow]
    exact Image.record?_of_getElem?_decodeAll hread hs
  case isSome_debugEntries =>
    rw [← debugDirectoryOffset_eq, Nat.mul_comm 28, ← hentry]
    -- The debug directory is looked for only behind a section table that could be read.
    cases htable : sectionTable image h with
    | none =>
      simp only [ofHeader, htable]
      refine iff_of_false (fun hentries => ?_) fun hboth => ?_
      · cases hentries
      · cases hboth.1
    | some ss =>
      simp only [ofHeader, htable]
      rw [Option.bind_some, debugDirectory, Option.isSome_map, Image.isSome_read]
      exact (and_iff_right rfl).symm
  case length_debugEntries =>
    intro es hes
    obtain ⟨ss, -, hes⟩ := Option.bind_eq_some_iff.mp hes
    obtain ⟨bs, hread, rfl⟩ := Option.map_eq_some_iff.mp hes
    rw [DebugInfo.Entry.decodeAll, List.length_map]
    exact Image.length_decodeAll_of_read (by decide) hread
  case debugEntries =>
    intro es i entry hes hentry
    obtain ⟨ss, -, hes⟩ := Option.bind_eq_some_iff.mp hes
    obtain ⟨bs, hread, rfl⟩ := Option.map_eq_some_iff.mp hes
    rw [← debugDirectoryOffset_eq]
    exact DebugInfo.entryAt_of_getElem?_decodeAll hread hentry

/-- Every file with the signature and a whole header is decoded. Its section table is there exactly
when it ends in the file, and so is its debug directory when the section table is there; their
entries are as many as are declared, each decoded at its own offset, and the piece that an entry
describes is read of the whole file. No offset or size exceeds a word. -/
theorem exists_tables (hsize : 48 ≤ image.size) (hsignature : [68, 73] <+: image.toList) :
    ∃ d, parse image = .ok d ∧ d.TablesIn image ∧
      48 + 40 * d.header.numberOfSections.toNat + d.header.exportedNamesSize.toNat
        + 28 * (d.header.debugDirectorySize.toNat / 28) < 2 ^ 64 ∧
      (Machine.Fits image → Machine.parseDebugFile image = .ok (.ok d)) := by
  refine ⟨_, parse_of_signature hsize hsignature, tablesIn_ofHeader hsize, ?_, fun hfits => ?_⟩
  · generalize (ofHeader image _).header = h
    have hsections := h.numberOfSections.toNat_lt
    have hnames := h.exportedNamesSize.toNat_lt
    have hdirectory := h.debugDirectorySize.toNat_lt
    omega
  · rw [Machine.parseDebugFile_eq hfits, parse_of_signature hsize hsignature]

/-- A file with a section, two bytes of names and one entry of the debug directory, which is behind
them. The entry describes the first bytes of the file. -/
def oneEntry : Image :=
  let header := { DebugHeader.fields.read fun _ => 0 with
    numberOfSections := 1, exportedNamesSize := 2, debugDirectorySize := 30 }
  let directory := { DebugInfo.Directory.layout.read fun _ => 0 with
    debugType := 2, sizeOfData := 3 }
  .ofList <| [68, 73] ++ DebugHeader.fields.write header ++ List.replicate 50 0
    ++ DebugInfo.Directory.layout.write directory

/-- The entry is there when it ends with the file, but not when the file lacks its last byte. -/
theorem exists_tables_oneEntry : ∃ d d' entry,
    parse oneEntry = .ok d ∧ d.sections.isSome ∧ d.debugEntries = some [entry] ∧
    entry.payload = .codeView (some [68, 73, 0]) ∧
    parse (.ofList (oneEntry.toList.take 117)) = .ok d' ∧ d'.sections.isSome ∧
    d'.debugEntries = none := by
  obtain ⟨d, hd, htables, -⟩ := @exists_tables oneEntry
    (by decide +kernel) (by decide +kernel)
  obtain ⟨d', hd', hcut, -⟩ := @exists_tables (.ofList (oneEntry.toList.take 117))
    (by decide +kernel) (by decide +kernel)
  have hcounts : oneEntry.record? .u32 24 = some 1 ∧ oneEntry.record? .u32 28 = some 2 ∧
      oneEntry.record? .u32 32 = some 30 := by decide +kernel
  have hcounts' : (Image.ofList (oneEntry.toList.take 117)).record? .u32 24 = some 1 ∧
      (Image.ofList (oneEntry.toList.take 117)).record? .u32 28 = some 2 ∧
      (Image.ofList (oneEntry.toList.take 117)).record? .u32 32 = some 30 := by decide +kernel
  obtain ⟨hn, hx, hm⟩ := htables.counts_eq hcounts.1 hcounts.2.1 hcounts.2.2
  obtain ⟨hn', hx', hm'⟩ := hcut.counts_eq hcounts'.1 hcounts'.2.1 hcounts'.2.2
  have hsections : d.sections.isSome := by
    rw [htables.isSome_sections, hn]
    decide +kernel
  have hsections' : d'.sections.isSome := by
    rw [hcut.isSome_sections, hn']
    decide +kernel
  have hentries : d.debugEntries.isSome := by
    rw [htables.isSome_debugEntries, and_iff_right hsections, hn, hx, hm]
    decide +kernel
  have hentries' : d'.debugEntries = none := by
    rw [← Option.not_isSome_iff_eq_none, hcut.isSome_debugEntries, and_iff_right hsections', hn',
      hx', hm']
    decide +kernel
  obtain ⟨es, hes⟩ := Option.isSome_iff_exists.mp hentries
  have hlength := htables.length_debugEntries es hes
  rw [hm] at hlength
  obtain ⟨entry, rfl⟩ := List.length_eq_one_iff.mp hlength
  obtain ⟨hdirectory, raw, hraw, hread⟩ := htables.debugEntries _ 0 entry hes rfl
  rw [hn, hx] at hdirectory
  have hentry : entry.directory = { DebugInfo.Directory.layout.read fun _ => 0 with
      debugType := 2, sizeOfData := 3 } :=
    Option.some.inj (hdirectory.symm.trans (by decide +kernel))
  rw [hentry] at hraw hread
  have hpiece : raw = some [68, 73, 0] := (hraw _).mpr ⟨by decide +kernel, by decide +kernel⟩
  have hpayload : entry.payload = .codeView raw := by
    generalize entry.payload = payload at hread ⊢
    cases hread with
    | codeView => rfl
    | none h => exact absurd h (by decide)
  exact ⟨d, d', entry, hd, hsections, hes, hpiece ▸ hpayload, hd', hsections', hentries'⟩

end DebugFile

end PeCoff
