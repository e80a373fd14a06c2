import PeCoff.Image
import PeCoff.Text.Unicode

/-!
# Message tables

A message table holds blocks of messages with consecutive numbers. The entries of a block lie end to
end, each with its length in front; an entry without length ends its block.
-/

namespace PeCoff.Resource

/-- The text of a message. -/
inductive MessageText where
  | narrow (bytes : Bytes)
  | wide (units : List UInt16)
  deriving DecidableEq, Repr

/-- A message and its number. -/
structure Message where
  id : Nat
  text : MessageText
  deriving DecidableEq, Repr

namespace MessageTable

/-- A range of numbers and the place of its messages. -/
structure Block where
  low : UInt32
  high : UInt32
  offset : UInt32
  deriving DecidableEq, Repr

/-- The places of the fields. -/
def Block.layout : Layout Block :=
  (Layout.u32.pair <| Layout.u32.pair .u32).equiv (fun (a, b, c) => ⟨a, b, c⟩)
    (fun b => (b.low, b.high, b.offset)) (fun _ => rfl) (fun _ => rfl)

/-- How many numbers the block covers. -/
def Block.count (b : Block) : Nat :=
  b.high.toNat + 1 - b.low.toNat

/-- The length of an entry and its flags, which stand in front of its text. -/
def entryHeader : Layout (UInt16 × UInt16) :=
  Layout.u16.pair .u16

/-- The text of an entry, up to the first zero; the lowest flag tells that it is wide. -/
def textOf (flags : UInt16) (body : Bytes) : MessageText :=
  if flags &&& 1 ≠ 0 then .wide ((Text.Utf16.units body).takeWhile (· != 0))
  else .narrow (Bytes.untilZero body)

/-- Up to `count` messages that lie end to end from an offset on, numbered from `id`. An entry that
is cut off ends with the table. -/
def entries (table : Image) : (count id offset : Nat) → List Message
  | 0, _, _ => []
  | count + 1, id, offset =>
    match table.record? entryHeader offset with
    | none => []
    | some (length, flags) =>
      if length = 0 then []
      else
        let entry := table.clipped offset length.toNat
        ⟨id, textOf flags (entry.drop entryHeader.size)⟩
          :: entries table count (id + 1) (offset + length.toNat)

/-- The messages of a block. -/
def blockMessages (table : Image) (b : Block) : List Message :=
  entries table b.count b.low.toNat b.offset.toNat

/-- The blocks that a table declares, as far as they are there. -/
def blocks (bs : Bytes) : List Block :=
  match Layout.u32.decode? bs with
  | none => []
  | some declared =>
    let headers := bs.drop Layout.u32.size
    Block.layout.decodeAll (headers.take (declared.toNat * Block.layout.size))

/-- The messages of a table. -/
def decode (bs : Bytes) : List Message :=
  let table := Image.ofList bs
  (blocks bs).flatMap (blockMessages table)

end MessageTable

end PeCoff.Resource
