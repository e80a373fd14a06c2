import PeCoff.Text.Unicode

/-!
# Blocks of strings

Strings are kept in blocks of sixteen. A block holds for each string its length and its units; a
string without units is one that does not exist. The number of a string follows from the number of
its block and its place.
-/

namespace PeCoff.Resource

/-- A string and its number. -/
structure TableString where
  id : UInt32
  units : List UInt16
  deriving DecidableEq, Repr

namespace StringTable

/-- The number of strings in a block. -/
def blockSize : Nat := 16

/-- The number of the first string of a block; it wraps at 32 bits. -/
def firstId (block : UInt16) : UInt32 :=
  (block.toUInt32 - 1) * 16

/-- The strings at the front of a sequence of units, at most `places` of them, numbered from `id`.
A string that is cut off ends with the sequence. -/
def ofUnits : (places : Nat) → (id : UInt32) → List UInt16 → List TableString
  | 0, _, _ => []
  | _ + 1, _, [] => []
  | places + 1, id, length :: rest =>
    let units := rest.take length.toNat
    let others := ofUnits places (id + 1) (rest.drop length.toNat)
    if units = [] then others else ⟨id, units⟩ :: others

/-- The strings of a block. -/
def decode (bs : Bytes) (block : UInt16) : List TableString :=
  ofUnits blockSize (firstId block) (Text.Utf16.units bs)

end StringTable

end PeCoff.Resource
