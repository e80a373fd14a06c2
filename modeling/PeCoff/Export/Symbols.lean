import PeCoff.Export.Directory
import PeCoff.Text.UpperCase

/-!
# Exported symbols

The symbols of a library in the order of their ordinals: one for each name of the name table, and
one with a made-up name for each function that has none, so that every exported address occurs. A
cursor hands them out one by one.
-/

namespace PeCoff.Export

/-- An exported symbol. -/
structure Symbol where
  ordinal : UInt32
  name : String
  deriving DecidableEq, Repr

/-- The symbols of a library that were not yet handed out. -/
structure Symbols where
  pending : List Symbol := []
  /-- The declared number of names. -/
  named : UInt32 := 0
  /-- The declared number of functions. -/
  total : UInt32 := 0
  /-- The first ordinal. -/
  base : UInt32 := 0
  deriving DecidableEq, Repr

namespace Symbols

/-- The name of a symbol whose name cannot be read. -/
def unreadableName : String := "cant_get_function"

/-- The name of a symbol that has none: the tag of the library and the ordinal, in upper case. -/
def synthetic (tag : String) (ordinal : UInt32) : String :=
  Text.UpperCase.ofString s!"{tag}_{ordinal.toNat}"

/-- The symbols of the name table, in its order. -/
def namedSymbols (memory : Memory) (directory : Directory) (pairs : List (Nat × UInt32)) :
    List Symbol :=
  pairs.map fun (index, address) =>
    ⟨directory.ordinal index, (memory.text address.toNat).getD unreadableName⟩

/-- For each index whether the name table names it. -/
def isNamed (count : Nat) (pairs : List (Nat × UInt32)) : Array Bool :=
  pairs.foldl (fun marks (index, _) => marks.setIfInBounds index true) (Array.replicate count false)

/-- The symbols of the functions without a name, by index. -/
def unnamedSymbols (directory : Directory) (tag : String) (addresses : List UInt32)
    (named : List Bool) : List Symbol :=
  (addresses.zip named).zipIdx.filterMap fun ((address, named), index) =>
    let ordinal := directory.ordinal index
    if address ≠ 0 ∧ !named then some ⟨ordinal, synthetic tag ordinal⟩ else none

/-- The symbols of an export directory. All three tables must be readable. -/
def ofDirectory (memory : Memory) (directory : Directory) (tag : String) :
    Except DecodeError Symbols := do
  let tables := Tables.read memory directory
  if tables.names.isNone then throw (.missingTable .name)
  if tables.ordinals.isNone then throw (.missingTable .ordinal)
  let some addresses := tables.functions
    | throw (.missingTable .address)
  let named := isNamed addresses.length tables.pairs
  let symbols := namedSymbols memory directory tables.pairs
    ++ unnamedSymbols directory tag addresses named.toList
  return {
    pending := symbols.mergeSort fun a b => a.ordinal ≤ b.ordinal
    named := directory.numberOfNames
    total := directory.numberOfFunctions
    base := directory.base }

/-- The next symbol and the symbols after it. -/
def next? (s : Symbols) : Option (Symbol × Symbols) :=
  match s.pending with
  | [] => none
  | symbol :: rest => some (symbol, { s with pending := rest })

/-- How many symbols are left. -/
def remaining (s : Symbols) : Nat :=
  s.pending.length

end Symbols

end PeCoff.Export
