import PeCoff.Resource.MessageTable
import PeCoff.Resource.Record
import PeCoff.Resource.StringTable

/-!
# Resources

The resource tree has three levels: types, names and languages. A resource is a path through all of
them that ends at a data entry. A part of the tree that cannot be read takes its own paths with it
and no others, and since the depth is fixed the walk ends whatever the tree refers to.
-/

namespace PeCoff.Resource

/-- What was read of a resource. -/
inductive Payload where
  | strings (strings : List TableString)
  | messages (messages : List Message)
  | bytes (bytes : Bytes)
  /-- The data cannot be read. -/
  | unavailable
  deriving DecidableEq, Repr

/-- A resource and the path that leads to it. -/
structure Entry where
  type : Id
  name : Id
  language : UInt16
  data : DataEntry
  payload : Payload
  deriving DecidableEq, Repr

/-- Whether the resource is of a type that has a number. -/
def Entry.isType (e : Entry) (number : UInt16) : Bool :=
  e.type == .number number

/-- The resources of an image, in the order of the tree. -/
structure Tree where
  entries : List Entry
  deriving DecidableEq, Repr

namespace Tree

variable (memory : Memory) (root : UInt32)

/-- The bytes at an offset from the root, unless the address exceeds 32 bits. -/
def bytesAt (offset length : Nat) : Option Bytes :=
  let address := root.toNat + offset
  if address < addressLimit then memory address length else none

/-- The record at an offset from the root. -/
def recordAt {α : Type} (l : Layout α) (offset : Nat) : Option α :=
  (bytesAt memory root offset l.size).bind l.decode?

/-- Up to `count` entries of a directory, from an offset on, as far as they can be read. -/
def entriesAt : (count : Nat) → (offset : Nat) → List DirectoryEntry
  | 0, _ => []
  | count + 1, offset =>
    match recordAt memory root DirectoryEntry.layout offset with
    | none => []
    | some e => e :: entriesAt count (offset + DirectoryEntry.layout.size)

/-- The entries of the directory at an offset, if its header can be read. -/
def directoryAt (offset : Nat) : Option (List DirectoryEntry) :=
  (recordAt memory root DirectoryHeader.layout offset).map fun header =>
    entriesAt memory root header.totalEntries (offset + DirectoryHeader.layout.size)

/-- The directory to which an entry leads; one without entries when there is none. -/
def subdirectory (e : DirectoryEntry) : List DirectoryEntry :=
  if e.isDirectory then (directoryAt memory root e.dataOffset).getD [] else []

/-- The text at an offset, its length in front. -/
def nameAt (offset : Nat) : Option (List UInt16) := do
  let length ← recordAt memory root .u16 offset
  let bytes ← bytesAt memory root (offset + Layout.u16.size) (length.toNat * 2)
  return Text.Utf16.units bytes

/-- What an entry is called. A text that cannot be read is empty. -/
def idOf (e : DirectoryEntry) : Id :=
  if e.isNamed then .name ((nameAt memory root e.nameOffset).getD []) else .number e.id

/-- The data of a resource. -/
def payloadOf (type name : Id) (data : DataEntry) : Payload :=
  match memory data.offsetToData.toNat data.size.toNat with
  | none => .unavailable
  | some bytes =>
    if type = .number messageTableType then .messages (MessageTable.decode bytes)
    else
      match type, name with
      | .number number, .number block =>
        if number = stringType then .strings (StringTable.decode bytes block) else .bytes bytes
      | _, _ => .bytes bytes

/-- The resource at which a path ends, if the entry of its language leads to data that can be
described. -/
def entryOf? (type name : Id) (language : DirectoryEntry) : Option Entry := do
  guard !language.isDirectory
  let data ← recordAt memory root DataEntry.layout language.dataOffset
  return { type, name, language := language.id, data, payload := payloadOf memory type name data }

/-- The resources of one type and name. -/
def languagesOf (type : Id) (name : DirectoryEntry) : List Entry :=
  (subdirectory memory root name).filterMap (entryOf? memory root type (idOf memory root name))

/-- The resources of one type. -/
def namesOf (type : DirectoryEntry) : List Entry :=
  (subdirectory memory root type).flatMap (languagesOf memory root (idOf memory root type))

/-- The resources of the tree at an address, if the root can be read. -/
def decode : Option Tree :=
  (directoryAt memory root 0).map fun types => ⟨types.flatMap (namesOf memory root)⟩

/-- The resources of a type that has a number. -/
def findType (tree : Tree) (number : UInt16) : List Entry :=
  tree.entries.filter fun e => e.isType number

end Tree

end PeCoff.Resource
