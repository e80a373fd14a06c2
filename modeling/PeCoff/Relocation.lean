import PeCoff.Layout

/-!
# Base relocations

The relocation directory is a stream of blocks, one for each page of memory. A block states its own
size, and after its header each 16-bit word is a fixup: four bits for what to patch and twelve for
the place in the page.
-/

namespace PeCoff.Relocation

/-- One fixup. -/
structure Fixup where
  /-- What to patch. -/
  kind : Fin 16
  /-- Where in the page. -/
  offset : Fin 4096
  deriving DecidableEq, Repr

namespace Fixup

/-- The fixup that a word encodes. -/
def ofWord (w : UInt16) : Fixup where
  kind := ⟨w.toNat / 4096, by have := w.toNat_lt; omega⟩
  offset := ⟨w.toNat % 4096, by omega⟩

/-- The word that encodes a fixup. -/
def toWord (f : Fixup) : UInt16 :=
  UInt16.ofNat (f.kind.val * 4096 + f.offset.val)

/-- A word is the one of the fixup that it stands for. -/
theorem toWord_ofWord (w : UInt16) : (ofWord w).toWord = w := by
  apply UInt16.toNat_inj.mp
  have := w.toNat_lt
  simp only [toWord, ofWord, UInt16.toNat_ofNat']
  omega

/-- A fixup is the one that its word stands for. -/
theorem ofWord_toWord (f : Fixup) : ofWord f.toWord = f := by
  obtain ⟨⟨k, hk⟩, ⟨o, ho⟩⟩ := f
  simp only [ofWord, toWord, UInt16.toNat_ofNat', mk.injEq, Fin.mk.injEq]
  omega

/-- A fixup that patches nothing and only fills up its block. -/
def isPadding (f : Fixup) : Bool :=
  f.kind == 0

/-- The word for what a fixup patches. -/
def kindName (kind : Nat) : String :=
  match kind with
  | 0 => "BASED_ABSOLUTE"
  | 1 => "BASED_HIGH"
  | 2 => "BASED_LOW"
  | 3 => "BASED_HIGHLOW"
  | 4 => "BASED_HIGHADJ"
  | 5 => "BASED_MIPS_JMPADDR"
  | 6 => "BASED_SECTION"
  | 7 => "BASED_REL"
  | 9 => "BASED_IA64_IMM64"
  | 10 => "BASED_DIR64"
  | 11 => "BASED_HIGH3ADJ"
  | n => s!"unknown {n}"

end Fixup

/-- The fixups of one page. -/
structure Block where
  /-- The address of the page. -/
  page : UInt32
  /-- The declared size of the block, its header included. -/
  size : UInt32
  fixups : List Fixup
  deriving DecidableEq, Repr

/-- The address that a fixup of the block patches; it wraps at 32 bits. -/
def Block.target (b : Block) (f : Fixup) : UInt32 :=
  b.page + UInt32.ofNat f.offset.val

/-- The header of a block: its page and its size. -/
def blockHeader : Layout (UInt32 × UInt32) :=
  Layout.u32.pair .u32

/-- A block that is too small for its own header. -/
structure Malformed where
  /-- The offset of the block in the stream. -/
  offset : Nat
  size : UInt32
  deriving DecidableEq, Repr

/-- The blocks of a stream. -/
structure Table where
  blocks : List Block
  /-- The block at which the stream breaks off, if it does not end. -/
  malformed : Option Malformed
  deriving DecidableEq, Repr

namespace Table

/-- The blocks of a stream of which `bs` is left after `offset` bytes. The stream ends where no
header fits or the size is zero. A block may be cut off by the end of the stream. -/
def decodeFrom (offset : Nat) (bs : Bytes) : Table :=
  match _header : blockHeader.decode? bs with
  | none => ⟨[], none⟩
  | some (page, size) =>
    if size = 0 then ⟨[], none⟩
    else if size.toNat < blockHeader.size then ⟨[], some ⟨offset, size⟩⟩
    else
      let body := (bs.take size.toNat).drop blockHeader.size
      let rest := decodeFrom (offset + size.toNat) (bs.drop size.toNat)
      { rest with
        blocks := ⟨page, size, (Layout.u16.decodeAll body).map Fixup.ofWord⟩ :: rest.blocks }
termination_by bs.length
decreasing_by
  have hsize : blockHeader.size = 8 := rfl
  have hlength := blockHeader.size_le_of_decode? _header
  simp only [List.length_drop]
  omega

/-- The blocks of a stream. -/
def decode (bs : Bytes) : Table :=
  decodeFrom 0 bs

/-- Whether there are no blocks. -/
def isEmpty (t : Table) : Bool :=
  t.blocks.isEmpty

/-- The number of fixups that patch something. -/
def fixupCount (t : Table) : Nat :=
  (t.blocks.flatMap Block.fixups).countP fun f => !f.isPadding

end Table

end PeCoff.Relocation
