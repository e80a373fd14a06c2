import Mathlib
import PeCoff.Proofs.Layout
import PeCoff.Proofs.Machine.Streams

/-!
# Tilings of relocation streams

The blocks of a relocation stream tile its bytes: each block starts where the one before it says
that it ends, and the stream ends or breaks off at the first place where no block starts. The main
statement is `decode_eq_iff_tiling`: the decoded table is the one tiling of the stream, streams that
are filled by their blocks can be put together, and blocks that are written are decoded again.
-/

namespace PeCoff.Relocation

/-! ## Bytes -/

/-- The bytes of the header of a block. -/
def headerBytes (page size : UInt32) : Bytes :=
  Layout.u32.write page ++ Layout.u32.write size

/-- The bytes of fixups, one word for each. -/
def fixupBytes (fixups : List Fixup) : Bytes :=
  fixups.flatMap fun f => Layout.u16.write f.toWord

/-- The bytes of a block. -/
def Block.bytes (b : Block) : Bytes :=
  headerBytes b.page b.size ++ fixupBytes b.fixups

/-- The header of a block takes eight bytes. -/
@[simp] lemma length_headerBytes (page size : UInt32) : (headerBytes page size).length = 8 :=
  rfl

/-- A fixup takes two bytes. -/
@[simp] lemma length_fixupBytes (fixups : List Fixup) :
    (fixupBytes fixups).length = 2 * fixups.length := by
  have hword (f : Fixup) : (Layout.u16.write f.toWord).length = 2 := Layout.length_write _ _
  induction fixups with
  | nil => rfl
  | cons f fixups ih =>
    rw [fixupBytes, List.flatMap_cons, List.length_append, hword, List.length_cons]
    rw [fixupBytes] at ih
    omega

/-- Fixups are written as their words. -/
lemma fixupBytes_eq (fixups : List Fixup) :
    fixupBytes fixups = (fixups.map Fixup.toWord).flatMap Layout.u16.write := by
  rw [fixupBytes, List.flatMap_map]

/-- The words of a byte string are fixups that are written as it, but for an odd last byte. -/
lemma map_ofWord_decodeAll_eq_iff {bs : Bytes} {fixups : List Fixup} :
    (Layout.u16.decodeAll bs).map Fixup.ofWord = fixups ↔
      fixupBytes fixups = bs.take (bs.length / 2 * 2) := by
  have hsize : Layout.u16.size = 2 := rfl
  rw [fixupBytes_eq, ← hsize, ← Layout.decodeAll_eq_iff (by decide)]
  constructor
  · rintro rfl
    have hid : Fixup.toWord ∘ Fixup.ofWord = id := funext Fixup.toWord_ofWord
    rw [List.map_map, hid, List.map_id]
  · intro h
    have hid : Fixup.ofWord ∘ Fixup.toWord = id := funext Fixup.ofWord_toWord
    rw [h, List.map_map, hid, List.map_id]

/-! ## Blocks in a stream -/

variable {a b bs rest : Bytes} {offset n : Nat} {page size : UInt32} {x : Block}
  {xs ys : List Block} {m m' : Option Malformed}

/-- The header of a block lies at an offset of a stream. -/
def HeaderAt (bs : Bytes) (offset : Nat) (page size : UInt32) : Prop :=
  (bs.drop offset).take 8 = headerBytes page size

/-- A header ends within the stream. -/
lemma HeaderAt.end_le (h : HeaderAt bs offset page size) : offset + 8 ≤ bs.length := by
  have hlength := congrArg List.length h
  rw [List.length_take, List.length_drop, length_headerBytes] at hlength
  omega

/-- A header lies where it is decoded. -/
lemma headerAt_iff :
    HeaderAt bs offset page size ↔ blockHeader.decode? (bs.drop offset) = some (page, size) := by
  rw [Layout.decode?_eq_some_iff]
  rfl

/-- What a stream holds of the bytes of a block after its header. They end with the stream, or
before that where the block says so. -/
def bodyAt (bs : Bytes) (offset : Nat) (size : UInt32) : Bytes :=
  ((bs.drop offset).take size.toNat).drop 8

/-- A block lies at an offset of a stream. Its header lies there as a whole, and its fixups are the
whole words after that. -/
structure BlockAt (bs : Bytes) (offset : Nat) (x : Block) : Prop where
  header : HeaderAt bs offset x.page x.size
  le_size : 8 ≤ x.size.toNat
  fixups : fixupBytes x.fixups =
    (bodyAt bs offset x.size).take ((bodyAt bs offset x.size).length / 2 * 2)

/-- A stream ends at an offset, or it breaks off there. -/
inductive EndsAt (bs : Bytes) (offset : Nat) : Option Malformed → Prop
  | short (h : bs.length < offset + 8) : EndsAt bs offset none
  | zero (page : UInt32) (h : HeaderAt bs offset page 0) : EndsAt bs offset none
  | malformed (page size : UInt32) (h : HeaderAt bs offset page size) (hpos : 1 ≤ size.toNat)
      (hlt : size.toNat < 8) : EndsAt bs offset (some ⟨offset, size⟩)

/-- Blocks lie end to end from an offset to where the stream ends or breaks off. -/
inductive Tiles (bs : Bytes) : (offset : Nat) → List Block → Option Malformed → Prop
  | ends {offset : Nat} {m : Option Malformed} (h : EndsAt bs offset m) : Tiles bs offset [] m
  | block {offset : Nat} {x : Block} {xs : List Block} {m : Option Malformed}
      (hx : BlockAt bs offset x) (h : Tiles bs (offset + x.size.toNat) xs m) :
      Tiles bs offset (x :: xs) m

/-! ## Decoding -/

namespace Table

/-- Nothing is decoded where a stream ends. -/
lemma decodeFrom_of_endsAt (h : EndsAt bs offset m) :
    decodeFrom offset (bs.drop offset) = ⟨[], m⟩ := by
  have hsize : blockHeader.size = 8 := rfl
  rw [Machine.decodeFrom_eq]
  cases h with
  | short h =>
    have hnone : blockHeader.decode? (bs.drop offset) = none := by
      rw [Layout.decode?_eq, if_neg (by rw [List.length_drop]; omega)]
    rw [hnone]
  | zero page h =>
    rw [headerAt_iff.mp h]
    rfl
  | malformed page size h hpos hlt =>
    have hzero : size ≠ 0 := by
      rintro rfl
      cases hpos
    rw [headerAt_iff.mp h]
    simp only
    rw [if_neg hzero, if_pos hlt]

/-- A block that lies at an offset is decoded there. -/
lemma decodeFrom_of_blockAt (h : BlockAt bs offset x) :
    decodeFrom offset (bs.drop offset) =
      let rest := decodeFrom (offset + x.size.toNat) (bs.drop (offset + x.size.toNat))
      { rest with blocks := x :: rest.blocks } := by
  have hle := h.le_size
  have hzero : x.size ≠ 0 := by
    intro hzero
    rw [hzero] at hle
    cases hle
  rw [Machine.decodeFrom_eq, headerAt_iff.mp h.header]
  simp only
  rw [if_neg hzero, if_neg (by omega), List.drop_drop]
  have hfixups := map_ofWord_decodeAll_eq_iff.mpr h.fixups
  rw [bodyAt] at hfixups
  rw [hfixups]

/-- At each offset a block lies or the stream ends. -/
lemma endsAt_or_blockAt (bs : Bytes) (offset : Nat) :
    (∃ m, EndsAt bs offset m) ∨ ∃ x, BlockAt bs offset x := by
  cases hheader : blockHeader.decode? (bs.drop offset) with
  | none =>
    rw [Layout.decode?_eq, ite_eq_right_iff, List.length_drop] at hheader
    have hsize : blockHeader.size = 8 := rfl
    refine .inl ⟨none, .short ?_⟩
    by_contra hle
    cases hheader (by omega)
  | some header =>
    obtain ⟨page, size⟩ := header
    have hheader := headerAt_iff.mpr hheader
    by_cases hzero : size = 0
    · exact .inl ⟨none, .zero page (hzero ▸ hheader)⟩
    by_cases hlt : size.toNat < 8
    · have hpos : size.toNat ≠ 0 := fun h => hzero (UInt32.toNat_inj.mp h)
      exact .inl ⟨_, .malformed page size hheader (by omega) hlt⟩
    · exact .inr ⟨⟨page, size, (Layout.u16.decodeAll (bodyAt bs offset size)).map Fixup.ofWord⟩,
        hheader, by simpa using hlt, map_ofWord_decodeAll_eq_iff.mp rfl⟩

/-- Every stream is tiled from every offset on. -/
lemma exists_tiles (bs : Bytes) (offset : Nat) : ∃ xs m, Tiles bs offset xs m := by
  induction hn : bs.length - offset using Nat.strong_induction_on generalizing offset with
  | _ n ih =>
    rcases endsAt_or_blockAt bs offset with ⟨m, hm⟩ | ⟨x, hx⟩
    · exact ⟨[], m, .ends hm⟩
    · have hend := hx.header.end_le
      have hle := hx.le_size
      obtain ⟨xs, m, hrest⟩ := ih _ (by omega) (offset + x.size.toNat) rfl
      exact ⟨x :: xs, m, .block hx hrest⟩

/-- Blocks that tile the stream are decoded. -/
lemma decodeFrom_of_tiles (h : Tiles bs offset xs m) :
    decodeFrom offset (bs.drop offset) = ⟨xs, m⟩ := by
  induction h with
  | ends h => exact decodeFrom_of_endsAt h
  | block hx _ ih => rw [decodeFrom_of_blockAt hx, ih]

/-- The decoded blocks are the ones that tile the stream. -/
lemma decode_eq_iff_tiles : decode bs = ⟨xs, m⟩ ↔ Tiles bs 0 xs m := by
  constructor
  · intro h
    obtain ⟨ys, m', htiles⟩ := exists_tiles bs 0
    have hdecode : decode bs = ⟨ys, m'⟩ := decodeFrom_of_tiles htiles
    cases h.symm.trans hdecode
    exact htiles
  · exact fun h => decodeFrom_of_tiles h

end Table

/-! ## Offsets of blocks -/

/-- The number of bytes that blocks declare. -/
def totalSize (xs : List Block) : Nat :=
  (xs.map fun x => x.size.toNat).sum

/-- The blocks of a table tile a stream. The header of each block lies where the blocks before it
end, only the last block is cut off, and behind the last block the stream ends or breaks off. -/
structure Tiling (bs : Bytes) (t : Table) : Prop where
  blockAt : ∀ k x, t.blocks[k]? = some x → BlockAt bs (totalSize (t.blocks.take k)) x
  whole : ∀ k, k + 1 < t.blocks.length → totalSize (t.blocks.take (k + 1)) ≤ bs.length
  endsAt : EndsAt bs (totalSize t.blocks) t.malformed

/-- The size of the first block comes on top of that of the rest. -/
lemma totalSize_cons (x : Block) (xs : List Block) :
    totalSize (x :: xs) = x.size.toNat + totalSize xs :=
  List.sum_cons

/-- Blocks tile a stream when each lies behind those before it, and the stream ends behind the last
one. -/
lemma tiles_iff : Tiles bs offset xs m ↔
    (∀ k x, xs[k]? = some x → BlockAt bs (offset + totalSize (xs.take k)) x) ∧
      EndsAt bs (offset + totalSize xs) m := by
  constructor
  · intro h
    induction h with
    | ends h => exact ⟨fun k x hx => by simp at hx, h⟩
    | @block offset x xs m hx _ ih =>
      obtain ⟨hblocks, hends⟩ := ih
      rw [Nat.add_assoc, ← totalSize_cons] at hends
      refine ⟨fun k y hy => ?_, hends⟩
      -- The first block is at the offset itself; all others move on by its size.
      cases k with
      | zero =>
        cases hy
        exact hx
      | succ k =>
        have hblock := hblocks k y hy
        rwa [Nat.add_assoc, ← totalSize_cons, ← List.take_succ_cons] at hblock
  · rintro ⟨hblocks, hends⟩
    induction xs generalizing offset with
    | nil => exact .ends hends
    | cons x xs ih =>
      refine .block (hblocks 0 x rfl) (ih (fun k y hy => ?_) ?_)
      · have hblock := hblocks (k + 1) y hy
        rwa [List.take_succ_cons, totalSize_cons, ← Nat.add_assoc] at hblock
      · rwa [totalSize_cons, ← Nat.add_assoc] at hends

/-- A tiling begins at the front of the stream. -/
lemma tiling_iff {t : Table} : Tiling bs t ↔ Tiles bs 0 t.blocks t.malformed := by
  simp only [tiles_iff, Nat.zero_add]
  constructor
  · exact fun h => ⟨h.blockAt, h.endsAt⟩
  · rintro ⟨hblocks, hends⟩
    refine ⟨hblocks, fun k hk => ?_, hends⟩
    -- The block behind a block has its header in the stream.
    have hnext := (hblocks (k + 1) _ (List.getElem?_eq_getElem hk)).header.end_le
    omega

/-! ## Streams one after the other -/

/-- Past all of a first stream lies the second one. -/
lemma drop_append_add (a b : Bytes) (offset : Nat) :
    (a ++ b).drop (a.length + offset) = b.drop offset := by
  rw [← List.drop_drop, List.drop_left]

/-- A header stays in a stream that goes on. -/
lemma HeaderAt.append_left (h : HeaderAt a offset page size) :
    HeaderAt (a ++ b) offset page size := by
  have hend := h.end_le
  rw [HeaderAt, List.drop_append_of_le_length (by omega),
    List.take_append_of_le_length (by rw [List.length_drop]; omega)]
  exact h

/-- A header of a second stream lies farther back by the length of the first one. -/
lemma HeaderAt.append_right (h : HeaderAt b offset page size) :
    HeaderAt (a ++ b) (a.length + offset) page size := by
  rwa [HeaderAt, drop_append_add]

/-- A block that ends in the first stream is not changed by the second one. -/
lemma BlockAt.append_left (h : BlockAt a offset x) (hle : offset + x.size.toNat ≤ a.length) :
    BlockAt (a ++ b) offset x := by
  have hbody : bodyAt (a ++ b) offset x.size = bodyAt a offset x.size := by
    rw [bodyAt, bodyAt, List.drop_append_of_le_length (by omega),
      List.take_append_of_le_length (by rw [List.length_drop]; omega)]
  exact ⟨h.header.append_left, h.le_size, by rw [hbody]; exact h.fixups⟩

/-- A block of a second stream lies farther back by the length of the first one. -/
lemma BlockAt.append_right (h : BlockAt b offset x) : BlockAt (a ++ b) (a.length + offset) x := by
  have hbody : bodyAt (a ++ b) (a.length + offset) x.size = bodyAt b offset x.size := by
    rw [bodyAt, bodyAt, drop_append_add]
  exact ⟨h.header.append_right, h.le_size, by rw [hbody]; exact h.fixups⟩

/-- The place at which a stream breaks off, when other bytes precede the stream. -/
def Malformed.shift (n : Nat) (m : Malformed) : Malformed :=
  { m with offset := n + m.offset }

/-- A second stream ends farther back by the length of the first one. -/
lemma EndsAt.append_right (h : EndsAt b offset m) :
    EndsAt (a ++ b) (a.length + offset) (m.map (Malformed.shift a.length)) := by
  cases h with
  | short h => exact .short (by rw [List.length_append]; omega)
  | zero page h => exact .zero page h.append_right
  | malformed page size h hpos hlt => exact .malformed page size h.append_right hpos hlt

/-- The tiles of a second stream lie farther back by the length of the first one. -/
lemma Tiles.append_right (h : Tiles b offset xs m) :
    Tiles (a ++ b) (a.length + offset) xs (m.map (Malformed.shift a.length)) := by
  induction h with
  | ends h => exact .ends h.append_right
  | block hx _ ih => exact .block hx.append_right (by rwa [Nat.add_assoc])

/-- Blocks that end in the first stream are followed by those behind them. -/
lemma Tiles.append_left (h : Tiles a offset xs m) (hle : offset + totalSize xs ≤ a.length)
    (hrest : Tiles (a ++ b) (offset + totalSize xs) ys m') :
    Tiles (a ++ b) offset (xs ++ ys) m' := by
  induction h with
  | ends => exact hrest
  | block hx _ ih =>
    rw [totalSize_cons, ← Nat.add_assoc] at hle hrest
    exact .block (hx.append_left (by omega)) (ih hle hrest)

/-- A stream that is filled by its blocks, with another stream behind it. -/
lemma Tiles.append (ha : Tiles a 0 xs m) (hfull : totalSize xs = a.length) (hb : Tiles b 0 ys m') :
    Tiles (a ++ b) 0 (xs ++ ys) (m'.map (Malformed.shift a.length)) := by
  refine ha.append_left (by omega) ?_
  have hright : Tiles (a ++ b) (a.length + 0) ys (m'.map (Malformed.shift a.length)) :=
    hb.append_right
  rwa [Nat.zero_add, hfull]

/-! ## Written blocks -/

/-- A block declares the number of its bytes. -/
def Block.IsExact (x : Block) : Prop :=
  x.size.toNat = 8 + 2 * x.fixups.length

/-- An exact block is written in as many bytes as it declares. -/
lemma Block.IsExact.length_bytes (h : x.IsExact) : x.bytes.length = x.size.toNat := by
  rw [bytes, List.length_append, length_headerBytes, length_fixupBytes, h]

/-- An exact block tiles its own bytes. -/
lemma tiles_bytes (h : x.IsExact) : Tiles x.bytes 0 [x] none := by
  have hlength := h.length_bytes
  have hbody : bodyAt x.bytes 0 x.size = fixupBytes x.fixups := by
    rw [bodyAt, List.drop_zero, ← hlength, List.take_length, Block.bytes]
    exact List.drop_left' (length_headerBytes _ _)
  have hblock : BlockAt x.bytes 0 x :=
    { header := List.take_left' (length_headerBytes _ _)
      le_size := by rw [h]; omega
      fixups := by
        rw [hbody, length_fixupBytes, Nat.mul_div_cancel_left _ (by decide),
          Nat.mul_comm, ← length_fixupBytes, List.take_length] }
  exact .block hblock (.ends (.short (by omega)))

/-- Written blocks tile their bytes and fill them. -/
lemma tiles_flatMap_bytes (h : ∀ x ∈ xs, x.IsExact) : Tiles (xs.flatMap Block.bytes) 0 xs none := by
  induction xs with
  | nil => exact .ends (.short (by decide))
  | cons x xs ih =>
    have hx := h x List.mem_cons_self
    have hfull : totalSize [x] = x.bytes.length := by
      rw [hx.length_bytes]
      exact Nat.add_zero _
    exact (tiles_bytes hx).append hfull (ih fun y hy => h y (List.mem_cons_of_mem x hy))

namespace Table

/-- The decoded table is the one that tiles the stream. Behind a stream that its blocks fill, the
blocks of another stream are decoded as they are without it, and a place at which that stream breaks
off is moved by the bytes before it. Blocks that declare their own number of bytes are decoded from
these bytes. -/
theorem decode_eq_iff_tiling :
    (∀ bs t, decode bs = t ↔ Tiling bs t) ∧
    (∀ a b, totalSize (decode a).blocks = a.length →
      decode (a ++ b) = ⟨(decode a).blocks ++ (decode b).blocks,
        (decode b).malformed.map fun m => { m with offset := a.length + m.offset }⟩) ∧
    ∀ xs : List Block, (∀ x ∈ xs, x.size.toNat = 8 + 2 * x.fixups.length) →
      decode (xs.flatMap Block.bytes) = ⟨xs, none⟩ := by
  refine ⟨fun bs t => ?_, fun a b hfull => ?_, fun xs hxs => ?_⟩
  · rw [tiling_iff]
    exact decode_eq_iff_tiles
  · have ha : Tiles a 0 (decode a).blocks (decode a).malformed := decode_eq_iff_tiles.mp rfl
    have hb : Tiles b 0 (decode b).blocks (decode b).malformed := decode_eq_iff_tiles.mp rfl
    exact decode_eq_iff_tiles.mpr (ha.append hfull hb)
  · exact decode_eq_iff_tiles.mpr (tiles_flatMap_bytes hxs)

/-- A block of an odd size, with one fixup and a byte behind it. -/
def oddBlock : Block := ⟨0x1000, 11, [.ofWord 0x3123]⟩

/-- A block of which one fixup is padding. -/
def paddedBlock : Block := ⟨0x2000, 12, [.ofWord 0x3004, .ofWord 0]⟩

/-- A stream that breaks off at its second block. -/
def brokenStream : Bytes :=
  paddedBlock.bytes ++ headerBytes 0x3000 5 ++ [1, 2, 3, 4]

/-- The stream is moved by an odd block in front of it, and a block is decoded from its bytes. -/
theorem decode_eq_iff_tiling_odd :
    totalSize (decode (oddBlock.bytes ++ [0xFF])).blocks = (oddBlock.bytes ++ [0xFF]).length ∧
    decode (oddBlock.bytes ++ [0xFF] ++ brokenStream) =
      ⟨[oddBlock, paddedBlock], some ⟨23, 5⟩⟩ ∧
    Tiling (oddBlock.bytes ++ [0xFF] ++ brokenStream) ⟨[oddBlock, paddedBlock], some ⟨23, 5⟩⟩ ∧
    decode ([paddedBlock].flatMap Block.bytes) = ⟨[paddedBlock], none⟩ := by
  obtain ⟨htiling, happend, hwritten⟩ := decode_eq_iff_tiling
  have hfull : totalSize (decode (oddBlock.bytes ++ [0xFF])).blocks =
      (oddBlock.bytes ++ [0xFF]).length := by decide +kernel
  have hodd : (decode (oddBlock.bytes ++ [0xFF])).blocks = [oddBlock] := by decide +kernel
  have hbroken : decode brokenStream = ⟨[paddedBlock], some ⟨12, 5⟩⟩ := by decide +kernel
  have hdecode := happend _ brokenStream hfull
  rw [hodd, hbroken] at hdecode
  refine ⟨hfull, hdecode, (htiling _ _).mp hdecode, hwritten _ fun x hx => ?_⟩
  obtain rfl := List.mem_singleton.mp hx
  decide

end Table

end PeCoff.Relocation
