import PeCoff.Image
import PeCoff.Text.Unicode

/-!
# Symbol table strings

Entries of the `.stab` section. The entries of each compilation unit start with a header, and their
names are offsets into the unit's own part of the string section; the header's value is the size of
that part.
-/

namespace PeCoff.DebugInfo

/-- One entry. -/
structure Stab where
  /-- The place of the name in the strings of the unit. -/
  nameOffset : UInt32
  kind : UInt8
  other : UInt8
  description : UInt16
  value : UInt32
  deriving DecidableEq, Repr

namespace Stab

/-- The places of the fields. -/
def layout : Layout Stab :=
  open Layout in
  (u32.pair <| u8.pair <| u8.pair <| u16.pair u32).equiv
    (fun (a, b, c, d, e) => ⟨a, b, c, d, e⟩)
    (fun s => (s.nameOffset, s.kind, s.other, s.description, s.value))
    (fun _ => rfl) (fun _ => rfl)

/-- Whether the entry starts a compilation unit. -/
def isUnitHeader (s : Stab) : Bool :=
  s.kind == 0

/-- The name at a place of the string section; past its end there is none. -/
def nameAt (strings : Image) (place : Nat) : String :=
  Text.ofUtf8 (strings.untilZero place)

/-- The names of entries, when the strings of their unit start at `base` and those of the next unit
at `next`. -/
def names (strings : Image) (base next : Nat) : List Stab → List String
  | [] => []
  | s :: rest =>
    let (base, next) := if s.isUnitHeader then (next, next + s.value.toNat) else (base, next)
    nameAt strings (base + s.nameOffset.toNat) :: names strings base next rest

end Stab

end PeCoff.DebugInfo
