import Mathlib
import PeCoff.Proofs.Resource.Messages

/-!
# Written message tables

A message table is written as the headers of its blocks and their entries, one behind the other. The
main statement is `decode_eq_iff_entries`: what is decoded of any table is told by the entries that
lie in it, and of a written table it is the messages that were written.
-/

namespace PeCoff.Resource

namespace MessageText

variable {t : MessageText}

/-- The bytes of a text. -/
def bytes : MessageText → Bytes
  | narrow bs => bs
  | wide us => us.flatMap Layout.u16.write

/-- The flags of an entry with a text. -/
def flags : MessageText → UInt16
  | narrow _ => 0
  | wide _ => 1

/-- A text has no zero. -/
def ZeroFree : MessageText → Prop
  | narrow bs => 0 ∉ bs
  | wide us => 0 ∉ us

instance : (t : MessageText) → Decidable t.ZeroFree
  | narrow bs => inferInstanceAs (Decidable (0 ∉ bs))
  | wide us => inferInstanceAs (Decidable (0 ∉ us))

/-- Zeros behind a text are cut off again. -/
lemma takeWhile_append_replicate {α : Type} [DecidableEq α] {zero : α} {xs : List α}
    (h : zero ∉ xs) (n : Nat) : (xs ++ List.replicate n zero).takeWhile (· != zero) = xs := by
  have hne : ∀ a ∈ xs, (a != zero) = true := fun a ha =>
    bne_iff_ne.mpr fun heq => h (heq ▸ ha)
  rw [List.takeWhile_append_of_pos hne, List.takeWhile_replicate, bne_self_eq_false,
    if_neg Bool.false_ne_true, List.append_nil]

/-- A text is the one of its bytes with any number of zeros behind. -/
lemma ZeroFree.textOf (h : t.ZeroFree) (zeros : Nat) :
    MessageTable.TextOf t.flags (t.bytes ++ List.replicate zeros 0) t := by
  cases t with
  | narrow bs =>
    have htext : MessageTable.TextOf 0 (bs ++ List.replicate zeros 0) _ := .narrow rfl
    rwa [takeWhile_append_replicate h] at htext
  | wide us =>
    have hwrite : Layout.u16.write 0 = List.replicate 2 0 := rfl
    have hbody : us.flatMap Layout.u16.write ++ List.replicate zeros 0 =
        (us ++ List.replicate (zeros / 2) 0).flatMap Layout.u16.write
          ++ List.replicate (zeros % 2) 0 := by
      rw [List.flatMap_append, List.append_assoc, List.flatMap_replicate, hwrite,
        List.flatten_replicate_replicate, List.replicate_append_replicate, Nat.div_add_mod']
    have hstray : (List.replicate (zeros % 2) (0 : UInt8)).length < 2 := by
      rw [List.length_replicate]
      exact Nat.mod_lt _ Nat.two_pos
    have htext : MessageTable.TextOf 1 (us.flatMap Layout.u16.write ++ List.replicate zeros 0) _ :=
      .wide rfl hbody hstray
    rwa [takeWhile_append_replicate h] at htext

end MessageText

namespace MessageTable

/-- A text to be written, and how many zeros are to be written behind it. -/
structure Entry where
  text : MessageText
  zeros : Nat
  deriving DecidableEq, Repr

namespace Entry

/-- The number of bytes of an entry. -/
def length (e : Entry) : Nat :=
  4 + e.text.bytes.length + e.zeros

/-- The bytes of an entry: its length, its flags, and its text with zeros behind. -/
def bytes (e : Entry) : Bytes :=
  entryHeader.write (UInt16.ofNat e.length, e.text.flags) ++
    (e.text.bytes ++ List.replicate e.zeros 0)

/-- An entry can be written: its text has no zero, and its length has 16 bits. -/
def Fits (e : Entry) : Prop :=
  e.text.ZeroFree ∧ e.length < 65536

instance (e : Entry) : Decidable e.Fits :=
  inferInstanceAs (Decidable (_ ∧ _))

/-- The header of an entry has four bytes. -/
lemma length_header (h : UInt16 × UInt16) : (entryHeader.write h).length = 4 :=
  Layout.length_write _ _

/-- An entry is written in as many bytes as its length says. -/
lemma length_bytes (e : Entry) : e.bytes.length = e.length := by
  rw [bytes, List.length_append, length_header, List.length_append, List.length_replicate, length,
    Nat.add_assoc]

end Entry

/-- Entries with consecutive numbers. -/
structure Group where
  low : UInt32
  entries : List Entry
  deriving DecidableEq, Repr

namespace Group

/-- The bytes of the entries of a group. -/
def bytes (g : Group) : Bytes :=
  g.entries.flatMap Entry.bytes

/-- The block of a group whose entries lie at a place. -/
def block (g : Group) (place : Nat) : Block :=
  ⟨g.low, UInt32.ofNat (g.low.toNat + g.entries.length - 1), UInt32.ofNat place⟩

/-- The messages of a group. -/
def messages (g : Group) : List Message :=
  (g.entries.zipIdx g.low.toNat).map fun (e, id) => ⟨id, e.text⟩

/-- A group can be written: it is not empty, its numbers have 32 bits, and its entries fit. -/
def Fits (g : Group) : Prop :=
  g.entries ≠ [] ∧ g.low.toNat + g.entries.length ≤ 2 ^ 32 ∧ ∀ e ∈ g.entries, e.Fits

instance (g : Group) : Decidable g.Fits :=
  inferInstanceAs (Decidable (_ ∧ _ ∧ _))

end Group

/-- Groups with the places of their entries, behind the headers of their blocks. -/
def placed (groups : List Group) : List (Nat × Group) :=
  places (fun g => g.bytes.length) (4 + 12 * groups.length) groups

/-- The bytes of a table: the number of its blocks, their headers, and their entries. -/
def encode (groups : List Group) : Bytes :=
  Layout.u32.write (UInt32.ofNat groups.length)
    ++ (placed groups).flatMap (fun p => Block.layout.write (p.2.block p.1))
    ++ groups.flatMap Group.bytes

variable {bs tail : Bytes} {e : Entry} {es : List Entry} {g : Group} {groups : List Group}
  {id place : Nat}

/-- A written entry lies where its bytes are. -/
lemma Entry.Fits.entryAt (h : e.Fits) (hbs : bs.drop place = e.bytes ++ tail) :
    EntryAt bs place ∧ lengthAt bs place = e.length ∧
      TextOf (flagsAt bs place) (bodyAt bs place) e.text := by
  have hsize : entryHeader.size = 4 := rfl
  rw [Entry.bytes, List.append_assoc] at hbs
  have hdecode := Layout.decode?_write_append (l := entryHeader)
    (UInt16.ofNat e.length, e.text.flags) (e.text.bytes ++ List.replicate e.zeros 0 ++ tail)
  have hend := entryHeader.size_le_of_decode? hdecode
  rw [← hbs, List.length_drop] at hend
  rw [← hbs, Layout.decode?_eq, if_pos (by rwa [List.length_drop]), Layout.read_drop, entryHeader,
    Layout.readAt_pair, Option.some_inj, Prod.mk.injEq] at hdecode
  obtain ⟨hlength, hflags⟩ := hdecode
  have hlength : lengthAt bs place = e.length := by
    rw [lengthAt, hlength]
    exact UInt16.toNat_ofNat_of_lt' h.2
  have hflags : flagsAt bs place = e.text.flags := hflags
  have hbody : bodyAt bs place = e.text.bytes ++ List.replicate e.zeros 0 := by
    have hrest : e.length - 4 = (e.text.bytes ++ List.replicate e.zeros 0).length := by
      rw [Entry.length, List.length_append, List.length_replicate]
      omega
    rw [bodyAt, hlength, ← List.drop_drop, hbs, List.drop_left' (length_header _), hrest, List.take_left]
  refine ⟨⟨by omega, ?_⟩, hlength, ?_⟩
  · rw [hlength, Entry.length]
    omega
  · rw [hflags, hbody]
    exact h.1.textOf e.zeros

/-- Written entries are the longest run, if they have all the numbers. -/
lemma entriesFrom_of_drop (h : ∀ e ∈ es, e.Fits)
    (hbs : bs.drop place = es.flatMap Entry.bytes ++ tail) :
    EntriesFrom bs place es.length id ((es.zipIdx id).map fun (e, id) => ⟨id, e.text⟩) := by
  induction es generalizing id place with
  | nil => exact entriesFrom_zero.mpr rfl
  | cons e es ih =>
    obtain ⟨he, hes⟩ := List.forall_mem_cons.mp h
    rw [List.flatMap_cons, List.append_assoc] at hbs
    obtain ⟨hentry, hlength, htext⟩ := he.entryAt hbs
    have hrest : bs.drop (place + lengthAt bs place) = es.flatMap Entry.bytes ++ tail := by
      rw [hlength, ← e.length_bytes, ← List.drop_drop, hbs, List.drop_left]
    exact (entriesFrom_of_entryAt hentry).mpr ⟨_, _, rfl, rfl, htext, ih hes hrest⟩

/-- A written group is what its block yields. -/
lemma Group.Fits.yields (h : g.Fits) (hplace : place < 2 ^ 32)
    (hbs : bs.drop place = g.bytes ++ tail) : Yields bs (g.block place) g.messages := by
  obtain ⟨hne, hids, hentries⟩ := h
  have hpos := List.length_pos_iff.mpr hne
  have hoffset : (UInt32.ofNat place).toNat = place := UInt32.toNat_ofNat_of_lt' hplace
  have hhigh : (UInt32.ofNat (g.low.toNat + g.entries.length - 1)).toNat =
      g.low.toNat + g.entries.length - 1 :=
    UInt32.toNat_ofNat_of_lt' (by simp only [UInt32.size]; omega)
  have hcount : g.low.toNat + g.entries.length - 1 + 1 - g.low.toNat = g.entries.length := by
    omega
  simp only [Yields, Group.block]
  rw [hoffset, hhigh, hcount]
  exact entriesFrom_of_drop hentries hbs

/-- The groups that have places are all of them. -/
lemma map_snd_placed (groups : List Group) : (placed groups).map Prod.snd = groups :=
  map_snd_places _ _ _

/-- The header of a block takes twelve bytes. -/
lemma length_headers (groups : List Group) :
    ((placed groups).flatMap fun p => Block.layout.write (p.2.block p.1)).length =
      groups.length * 12 := by
  have hsize : Block.layout.size = 12 := rfl
  have hlength : (placed groups).length = groups.length := by
    rw [← List.length_map Prod.snd, map_snd_placed]
  simp only [List.length_flatMap, Layout.length_write, List.map_const', List.sum_replicate,
    smul_eq_mul, hlength, hsize]

/-- A written table declares the blocks of its groups. -/
lemma declares_encode (hcount : groups.length < 2 ^ 32) (rest : Bytes) :
    Declares (encode groups ++ rest) ((placed groups).map fun p => p.2.block p.1) := by
  have hsize : Block.layout.size = 12 := rfl
  have hheaders : ((placed groups).flatMap fun p => Block.layout.write (p.2.block p.1)) =
      ((placed groups).map fun p => p.2.block p.1).flatMap Block.layout.write := by
    rw [List.flatMap_map]
  have hdeclared : (UInt32.ofNat groups.length).toNat = groups.length :=
    UInt32.toNat_ofNat_of_lt' hcount
  rw [declares_iff, encode, List.append_assoc, List.append_assoc, blocks,
    Layout.decode?_write_append]
  simp only
  rw [hdeclared, hsize, ← Layout.length_write .u32 (UInt32.ofNat groups.length), List.drop_left,
    ← length_headers, List.take_left, hheaders, Layout.decodeAll_flatMap_write (by decide)]

/-- Written messages are decoded again. -/
lemma decode_encode_append (hgroups : ∀ g ∈ groups, g.Fits)
    (hplaces : ∀ p ∈ placed groups, p.1 < 2 ^ 32) (rest : Bytes) :
    decode (encode groups ++ rest) = groups.flatMap Group.messages := by
  -- Each header takes twelve bytes, and the first place bounds how many can precede it.
  have hcount : groups.length < 2 ^ 32 := by
    cases groups with
    | nil => decide
    | cons g groups =>
      have hfirst := hplaces _ List.mem_cons_self
      simp only [List.length_cons] at hfirst ⊢
      omega
  have hdrop : (encode groups ++ rest).drop (4 + 12 * groups.length) =
      groups.flatMap Group.bytes ++ rest := by
    have hu32 : Layout.u32.size = 4 := rfl
    rw [encode, List.append_assoc]
    apply List.drop_left'
    rw [List.length_append, Layout.length_write, length_headers, hu32, Nat.mul_comm]
  have hyields : ∀ p ∈ placed groups,
      Yields (encode groups ++ rest) (p.2.block p.1) p.2.messages := by
    intro p hp
    obtain ⟨tail, hbs⟩ := drop_of_mem_places hdrop p hp
    have hmem : p.2 ∈ groups := by
      rw [← map_snd_placed groups]
      exact List.mem_map_of_mem hp
    exact (hgroups _ hmem).yields (hplaces p hp) hbs
  refine decode_eq_iff.mpr ⟨_, (placed groups).map fun p => p.2.messages,
    declares_encode hcount rest, ?_, ?_⟩
  · rw [List.forall₂_map_left_iff, List.forall₂_map_right_iff, List.forall₂_same]
    exact hyields
  · rw [← List.flatMap_def, ← List.flatMap_map Prod.snd, map_snd_placed]

/-- The decoded messages are those of the declared blocks, one block after the other: of each block
the longest run of entries that lie end to end from its offset on, with its numbers. A run has no
more messages than the table has bytes, none when the lowest number is above the highest one, and no
other block has a part in it. Messages that are written, in blocks that are not empty and with any
number of zeros behind each text, are decoded again, whatever follows the table. -/
theorem decode_eq_iff_entries :
    (∀ bs ms, decode bs = ms ↔ ∃ blocks found, Declares bs blocks ∧
      List.Forall₂ (Yields bs) blocks found ∧ found.flatten = ms) ∧
    (∀ bs b ms, Yields bs b ms → ms.length ≤ bs.length ∧ (b.high < b.low → ms = []) ∧
      ∀ ms', Yields bs b ms' → ms' = ms) ∧
    ∀ (groups : List Group) (rest : Bytes), (∀ g ∈ groups, g.Fits) →
      (∀ p ∈ placed groups, p.1 < 2 ^ 32) →
      decode (encode groups ++ rest) = groups.flatMap Group.messages := by
  refine ⟨fun bs ms => decode_eq_iff, fun bs b ms h => ⟨h.length_le_length, fun hlt => ?_,
    fun ms' h' => (yields_iff.mp h').symm.trans (yields_iff.mp h)⟩, fun groups rest => ?_⟩
  · have hcount := h.length_le
    rw [UInt32.lt_iff_toNat_lt] at hlt
    exact List.length_eq_zero_iff.mp (by omega)
  · exact fun hgroups hplaces => decode_encode_append hgroups hplaces rest

/-- Two groups: texts of both kinds, and an empty text with the highest number. -/
def sampleGroups : List Group :=
  [⟨0x10, [⟨.narrow [0x6F, 0x6B], 2⟩, ⟨.wide [0x41], 3⟩]⟩, ⟨0xFFFFFFFF, [⟨.narrow [], 0⟩]⟩]

/-- The messages of the sample. -/
def sampleMessages : List Message :=
  [⟨0x10, .narrow [0x6F, 0x6B]⟩, ⟨0x11, .wide [0x41]⟩, ⟨0xFFFFFFFF, .narrow []⟩]

/-- The sample is decoded from its bytes with other bytes behind them, and of a block with more
numbers than entries each entry is a message. -/
theorem decode_eq_iff_entries_sample :
    decode (encode sampleGroups ++ [1, 2, 3]) = sampleMessages ∧
    (∃ blocks found, Declares (encode sampleGroups) blocks ∧
      List.Forall₂ (Yields (encode sampleGroups)) blocks found ∧
      found.flatten = sampleMessages) ∧
    Yields (encode sampleGroups) ⟨0x10, 0x20, 28⟩
      (sampleMessages.take 2 ++ [⟨0x12, .narrow []⟩]) ∧
    (sampleMessages.take 2 ++ [Message.mk 0x12 (.narrow [])]).length ≤
      (encode sampleGroups).length := by
  obtain ⟨hdecode, hbound, hwritten⟩ := decode_eq_iff_entries
  have hsample (rest : Bytes) : decode (encode sampleGroups ++ rest) = sampleMessages :=
    hwritten sampleGroups rest (by decide) (by decide +kernel)
  have hexact := hsample []
  rw [List.append_nil] at hexact
  have hyields : Yields (encode sampleGroups) ⟨0x10, 0x20, 28⟩
      (sampleMessages.take 2 ++ [⟨0x12, .narrow []⟩]) := yields_iff.mpr (by decide +kernel)
  exact ⟨hsample _, (hdecode _ _).mp hexact, hyields, (hbound _ _ _ hyields).1⟩

end MessageTable

end PeCoff.Resource
