import Mathlib
import PeCoff.Proofs.Layout
import PeCoff.Proofs.Machine.Resources

/-!
# Entries of message tables

A message table declares blocks, and a block gives consecutive numbers to entries that lie end to
end, each with its length in front. The main statements are `decode_eq_iff`, by which the decoded
messages are those of the declared blocks, one after the other, where each block has the longest run
of entries that its numbers allow, and `EntriesFrom.length_le_length`, by which the bytes of the
table bound the length of a run.
-/

namespace PeCoff.Resource.MessageTable

variable {bs body tail : Bytes} {b : Block} {blocks : List Block} {flags : UInt16} {t : MessageText}
  {m : Message} {ms ms' : List Message} {count id place first k : Nat}

/-! ## What is there -/

/-- The length that an entry at a place has. -/
def lengthAt (bs : Bytes) (place : Nat) : Nat :=
  (Layout.u16.readAt bs.zeroExtended place).toNat

/-- The flags that an entry at a place has. -/
def flagsAt (bs : Bytes) (place : Nat) : UInt16 :=
  Layout.u16.readAt bs.zeroExtended (place + 2)

/-- The bytes of an entry at a place, behind its length and its flags. They end with the entry or
with the table. -/
def bodyAt (bs : Bytes) (place : Nat) : Bytes :=
  (bs.drop (place + 4)).take (lengthAt bs place - 4)

/-- An entry lies at a place: its length and its flags are there, and the length is not zero. -/
def EntryAt (bs : Bytes) (place : Nat) : Prop :=
  place + 4 ≤ bs.length ∧ lengthAt bs place ≠ 0

instance : Decidable (EntryAt bs place) :=
  inferInstanceAs (Decidable (_ ∧ _))

/-- The place of an entry in a row of entries, each of which starts where the one before it ends. -/
def entryPlace (bs : Bytes) (first k : Nat) : Nat :=
  (fun place => place + lengthAt bs place)^[k] first

/-- The text of a body, up to a zero. It is wide when the lowest flag is set, and then an odd last
byte does not count. -/
inductive TextOf (flags : UInt16) (body : Bytes) : MessageText → Prop
  | narrow (h : flags.toNat % 2 = 0) : TextOf flags body (.narrow (body.takeWhile (· != 0)))
  | wide {us : List UInt16} {stray : Bytes} (h : flags.toNat % 2 = 1)
      (hbody : body = us.flatMap Layout.u16.write ++ stray) (hstray : stray.length < 2) :
      TextOf flags body (.wide (us.takeWhile (· != 0)))

/-- Messages are the longest run of entries that lie end to end from a place on, with as many
numbers from `id` on as are given out. -/
structure EntriesFrom (bs : Bytes) (first count id : Nat) (ms : List Message) : Prop where
  length_le : ms.length ≤ count
  entry : ∀ k m, ms[k]? = some m → EntryAt bs (entryPlace bs first k) ∧ m.id = id + k ∧
    TextOf (flagsAt bs (entryPlace bs first k)) (bodyAt bs (entryPlace bs first k)) m.text
  complete : ms.length = count ∨ ¬ EntryAt bs (entryPlace bs first ms.length)

/-- The messages of a block, from its lowest number up to its highest one. -/
def Yields (bs : Bytes) (b : Block) (ms : List Message) : Prop :=
  EntriesFrom bs b.offset.toNat (b.high.toNat + 1 - b.low.toNat) b.low.toNat ms

/-- The blocks of a table: as many as its first number says, or fewer when the table ends inside the
header of the next one. -/
structure Declares (bs : Bytes) (blocks : List Block) : Prop where
  length_le : blocks.length ≤ (Layout.u32.readAt bs.zeroExtended 0).toNat
  block : ∀ k b, blocks[k]? = some b → (bs.drop (4 + 12 * k)).take 12 = Block.layout.write b
  complete : blocks.length = (Layout.u32.readAt bs.zeroExtended 0).toNat ∨
    bs.length < 4 + 12 * (blocks.length + 1)

/-! ## Entries -/

/-- The places of entries, with the first entry left out. -/
lemma entryPlace_succ (bs : Bytes) (first k : Nat) :
    entryPlace bs first (k + 1) = entryPlace bs (first + lengthAt bs first) k :=
  rfl

/-- The next entry lies behind the one before it. -/
lemma entryPlace_succ' (bs : Bytes) (first k : Nat) :
    entryPlace bs first (k + 1) =
      entryPlace bs first k + lengthAt bs (entryPlace bs first k) :=
  Function.iterate_succ_apply' _ _ _

/-- A body has one text. -/
lemma textOf_iff : TextOf flags body t ↔ t = textOf flags body := by
  have hone : (1 : UInt16).toNat = 1 := rfl
  have hset : flags &&& 1 ≠ 0 ↔ flags.toNat % 2 = 1 := by
    rw [ne_eq, ← UInt16.toNat_inj, UInt16.toNat_and, hone, Nat.and_one_is_mod, UInt16.toNat_zero]
    omega
  rw [textOf, Bytes.untilZero]
  constructor
  · rintro (hclear | ⟨hflag, hbody, hstray⟩)
    · rw [if_neg (by rw [hset]; omega)]
    · rw [if_pos (hset.mpr hflag), Text.Utf16.units_eq_iff.mpr ⟨_, hstray, hbody⟩]
  · rintro rfl
    by_cases hflag : flags &&& 1 ≠ 0
    · obtain ⟨stray, hstray, hbody⟩ :=
        Text.Utf16.units_eq_iff.mp (Eq.refl (Text.Utf16.units body))
      rw [if_pos hflag]
      exact .wide (hset.mp hflag) hbody hstray
    · rw [if_neg hflag]
      rw [hset] at hflag
      exact .narrow (by omega)

/-- An entry is decoded, and the next one behind it. -/
lemma entries_of_entryAt (h : EntryAt bs place) (count id : Nat) :
    entries (Image.ofList bs) (count + 1) id place =
      ⟨id, textOf (flagsAt bs place) (bodyAt bs place)⟩
        :: entries (Image.ofList bs) count (id + 1) (place + lengthAt bs place) := by
  obtain ⟨hend, hlength⟩ := h
  have hsize : entryHeader.size = 4 := rfl
  have hrecord : (Image.ofList bs).record? entryHeader place =
      some (Layout.u16.readAt bs.zeroExtended place, flagsAt bs place) := by
    rw [Machine.record?_ofList (by decide), Layout.decode?_eq, if_pos (by
      rw [List.length_drop, hsize]
      omega), Layout.read_drop, entryHeader, Layout.readAt_pair]
    rfl
  have hne : Layout.u16.readAt bs.zeroExtended place ≠ 0 := by
    intro hzero
    rw [lengthAt, hzero] at hlength
    exact hlength rfl
  have hbody : ((Image.ofList bs).clipped place (lengthAt bs place)).drop entryHeader.size =
      bodyAt bs place := by
    rw [Image.clipped_eq, hsize, List.drop_take, List.drop_drop, bodyAt]
    rfl
  rw [lengthAt] at hbody
  rw [entries, hrecord]
  simp only
  rw [if_neg hne, hbody, lengthAt]

/-- Where no entry lies the decoding of a block ends. -/
lemma entries_of_not_entryAt (h : ¬ EntryAt bs place) (count id : Nat) :
    entries (Image.ofList bs) count id place = [] := by
  have hsize : entryHeader.size = 4 := rfl
  cases count with
  | zero => rfl
  | succ count =>
    rw [entries, Machine.record?_ofList (by decide), Layout.decode?_eq, List.length_drop, hsize]
    by_cases hend : place + 4 ≤ bs.length
    · have hlength : lengthAt bs place = 0 := by
        by_contra hne
        exact h ⟨hend, hne⟩
      have hzero : Layout.u16.readAt bs.zeroExtended place = 0 := UInt16.toNat_inj.mp hlength
      rw [if_pos (by omega), Layout.read_drop, entryHeader, Layout.readAt_pair]
      simp only
      rw [if_pos hzero]
    · rw [if_neg (by omega)]

/-- A block without entries has no messages. -/
lemma entriesFrom_zero : EntriesFrom bs first 0 id ms ↔ ms = [] := by
  constructor
  · exact fun h => List.length_eq_zero_iff.mp (Nat.le_zero.mp h.length_le)
  · rintro rfl
    exact ⟨Nat.le_refl _, fun k m hm => by simp at hm, .inl rfl⟩

/-- Where no entry lies a block has no messages. -/
lemma entriesFrom_of_not_entryAt (h : ¬ EntryAt bs first) :
    EntriesFrom bs first count id ms ↔ ms = [] := by
  constructor
  · intro hms
    cases ms with
    | nil => rfl
    | cons m ms => exact absurd (hms.entry 0 m rfl).1 h
  · rintro rfl
    exact ⟨Nat.zero_le _, fun k m hm => by simp at hm, .inr h⟩

/-- Entries from a place where one lies are that one, and the entries behind it. -/
lemma entriesFrom_of_entryAt (h : EntryAt bs first) :
    EntriesFrom bs first (count + 1) id ms ↔ ∃ m rest, ms = m :: rest ∧ m.id = id ∧
      TextOf (flagsAt bs first) (bodyAt bs first) m.text ∧
      EntriesFrom bs (first + lengthAt bs first) count (id + 1) rest := by
  -- The places of the rest are those of the whole run, moved by the length of the first entry.
  constructor
  · intro hms
    cases ms with
    | nil =>
      rcases hms.complete with hfull | hend
      · cases hfull
      · exact absurd h hend
    | cons m rest =>
      obtain ⟨-, hid, htext⟩ := hms.entry 0 m rfl
      refine ⟨m, rest, rfl, hid, htext, ?_, fun k m' hm' => ?_, ?_⟩
      · simpa using hms.length_le
      · have hentry := hms.entry (k + 1) m' hm'
        rwa [entryPlace_succ, ← Nat.add_assoc, Nat.add_right_comm] at hentry
      · have hcomplete := hms.complete
        rwa [List.length_cons, entryPlace_succ, Nat.add_right_cancel_iff] at hcomplete
  · rintro ⟨m, rest, rfl, hid, htext, hrest⟩
    refine ⟨by simpa using hrest.length_le, fun k m' hm' => ?_, ?_⟩
    · cases k with
      | zero =>
        obtain rfl := Option.some.inj hm'
        exact ⟨h, hid, htext⟩
      | succ k =>
        rw [entryPlace_succ, ← Nat.add_assoc, Nat.add_right_comm]
        exact hrest.entry k m' hm'
    · rw [List.length_cons, entryPlace_succ, Nat.add_right_cancel_iff]
      exact hrest.complete

/-- The decoded entries are the longest run. -/
lemma entriesFrom_iff :
    EntriesFrom bs first count id ms ↔ entries (Image.ofList bs) count id first = ms := by
  induction count generalizing first id ms with
  | zero =>
    rw [entriesFrom_zero, entries, eq_comm]
  | succ count ih =>
    by_cases h : EntryAt bs first
    · rw [entriesFrom_of_entryAt h, entries_of_entryAt h]
      constructor
      · rintro ⟨m, rest, rfl, rfl, htext, hrest⟩
        rw [ih.mp hrest, ← textOf_iff.mp htext]
      · rintro rfl
        exact ⟨_, _, rfl, rfl, textOf_iff.mpr rfl, ih.mpr rfl⟩
    · rw [entriesFrom_of_not_entryAt h, entries_of_not_entryAt h, eq_comm]

/-- Each entry takes at least one byte. -/
lemma EntriesFrom.le_entryPlace (h : EntriesFrom bs first count id ms) (hk : k ≤ ms.length) :
    first + k ≤ entryPlace bs first k := by
  induction k with
  | zero => exact Nat.le_refl _
  | succ k ih =>
    obtain ⟨⟨-, hlength⟩, -⟩ := h.entry k _ (List.getElem?_eq_getElem hk)
    have ih := ih (by omega)
    rw [entryPlace_succ']
    omega

/-- There are no more messages in a run than bytes in the table. -/
lemma EntriesFrom.length_le_length (h : EntriesFrom bs first count id ms) :
    ms.length ≤ bs.length := by
  cases hn : ms.length with
  | zero => exact Nat.zero_le _
  | succ k =>
    obtain ⟨⟨hend, -⟩, -⟩ := h.entry k _ (List.getElem?_eq_getElem (by omega))
    have hle := h.le_entryPlace (k := k) (by omega)
    omega

/-- What a block yields is what is decoded of it. -/
lemma yields_iff : Yields bs b ms ↔ blockMessages (Image.ofList bs) b = ms :=
  entriesFrom_iff

/-! ## Blocks -/

/-- A table declares its blocks in one way. -/
lemma Declares.unique {blocks' : List Block} (h : Declares bs blocks) (h' : Declares bs blocks') :
    blocks = blocks' := by
  have hend {xs : List Block} (hxs : Declares bs xs) (hpos : 0 < xs.length) :
      4 + 12 * xs.length ≤ bs.length := by
    have hlast := hxs.block _ _ (List.getElem?_eq_getElem (Nat.sub_one_lt_of_lt hpos))
    have hlength := congrArg List.length hlast
    have hsize : Block.layout.size = 12 := rfl
    rw [List.length_take, List.length_drop, Layout.length_write, hsize] at hlength
    omega
  have hlength : blocks.length = blocks'.length := by
    have hle := h.length_le
    have hle' := h'.length_le
    have hcomplete := h.complete
    have hcomplete' := h'.complete
    rcases Nat.lt_trichotomy blocks.length blocks'.length with hlt | heq | hgt
    · have hend := hend h' (by omega)
      omega
    · exact heq
    · have hend := hend h (by omega)
      omega
  apply List.ext_getElem hlength
  intro k hk hk'
  have hblock := h.block k _ (List.getElem?_eq_getElem hk)
  have hblock' := h'.block k _ (List.getElem?_eq_getElem hk')
  exact Block.layout.write_injective (hblock.symm.trans hblock')

/-- The decoded blocks are declared. -/
lemma declares_blocks (bs : Bytes) : Declares bs (MessageTable.blocks bs) := by
  have hu32 : Layout.u32.size = 4 := rfl
  have hsize : Block.layout.size = 12 := rfl
  rw [MessageTable.blocks, Layout.decode?_eq, hu32]
  by_cases h : 4 ≤ bs.length
  · simp only [if_pos h, hsize]
    rw [← Layout.readAt_zero]
    generalize hdeclared : (Layout.u32.readAt bs.zeroExtended 0).toNat = declared
    have hlength : (Block.layout.decodeAll ((bs.drop 4).take (declared * 12))).length =
        min (declared * 12) (bs.length - 4) / 12 := by
      rw [Layout.length_decodeAll, List.length_take, List.length_drop, hsize]
    refine ⟨by omega, fun k b hb => ?_, by omega⟩
    rw [Layout.getElem?_decodeAll (by decide), hsize, Layout.decode?_eq_some_iff, hsize] at hb
    have hblock := congrArg List.length hb
    rw [Layout.length_write, hsize, List.length_take, List.length_drop, List.length_take,
      List.length_drop] at hblock
    rw [← hb, List.drop_take, List.drop_drop, List.take_take, Nat.min_eq_left (by omega),
      Nat.mul_comm]
  · rw [if_neg h]
    exact ⟨Nat.zero_le _, fun k b hb => by simp at hb, .inr (by simp; omega)⟩

/-- The declared blocks are those that are decoded. -/
lemma declares_iff : Declares bs blocks ↔ MessageTable.blocks bs = blocks := by
  constructor
  · exact fun h => (declares_blocks bs).unique h
  · rintro rfl
    exact declares_blocks bs

/-- The decoded messages are those of the declared blocks, one block after the other. -/
lemma decode_eq_iff : decode bs = ms ↔
    ∃ blocks found, Declares bs blocks ∧ List.Forall₂ (Yields bs) blocks found ∧
      found.flatten = ms := by
  have hyields (xs : List Block) (found : List (List Message)) :
      List.Forall₂ (Yields bs) xs found ↔
        xs.map (blockMessages (Image.ofList bs)) = found := by
    rw [← List.forall₂_eq_eq_eq, List.forall₂_map_left_iff]
    simp only [← yields_iff]
  simp only [declares_iff, hyields]
  rw [decode, List.flatMap]
  constructor
  · intro h
    exact ⟨_, _, rfl, rfl, h⟩
  · rintro ⟨_, _, rfl, rfl, h⟩
    exact h

end PeCoff.Resource.MessageTable
