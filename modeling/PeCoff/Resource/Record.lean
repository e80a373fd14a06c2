import PeCoff.Memory
import PeCoff.Text.Escape

/-!
# Records of the resource tree

The resource tree consists of directories, their entries, and data entries. Offsets inside the tree
are relative to its root; only a data entry holds an address.
-/

namespace PeCoff.Resource

/-- The types of resources that have a number and a name. -/
def typeNames : List (UInt16 × String) := [
  (1, "CURSOR"),
  (2, "BITMAP"),
  (3, "ICON"),
  (4, "MENU"),
  (5, "DIALOG"),
  (6, "STRING"),
  (7, "FONTDIR"),
  (8, "FONT"),
  (9, "ACCELERATOR"),
  (10, "RCDATA"),
  (11, "MESSAGETABLE"),
  (12, "GROUP_CURSOR"),
  (14, "GROUP_ICON"),
  (16, "VERSION"),
  (17, "DLGINCLUDE"),
  (19, "PLUGPLAY"),
  (20, "VXD"),
  (21, "ANICURSOR"),
  (22, "ANIICON"),
  (23, "HTML"),
  (24, "MANIFEST")]

/-- The name of a type of resources, if it has one. -/
def typeName? (number : UInt16) : Option String :=
  typeNames.lookup number

/-- The type of blocks of strings. -/
def stringType : UInt16 := 6

/-- The type of message tables. -/
def messageTableType : UInt16 := 11

/-- What an entry of the tree is called: a number, or a text in UTF-16. -/
inductive Id where
  | number (number : UInt16)
  | name (units : List UInt16)
  deriving DecidableEq, Repr

namespace Id

/-- The identifier as text. -/
def label : Id → String
  | number n => Text.hexOf 4 n.toNat
  | name units => String.ofList (Text.Escape.wideLiteral units)

/-- The identifier of a type as text; a type with a name is given by it. -/
def typeLabel : Id → String
  | number n => (typeName? n).getD (label (number n))
  | name units => label (name units)

end Id

/-- The header of a directory. -/
structure DirectoryHeader where
  characteristics : UInt32
  timeDateStamp : UInt32
  majorVersion : UInt16
  minorVersion : UInt16
  numberOfNamedEntries : UInt16
  numberOfIdEntries : UInt16
  deriving DecidableEq, Repr

namespace DirectoryHeader

/-- The places of the fields. -/
def layout : Layout DirectoryHeader :=
  open Layout in
  (u32.pair <| u32.pair <| u16.pair <| u16.pair <| u16.pair u16).equiv
    (fun (a, b, c, d, e, f) => ⟨a, b, c, d, e, f⟩)
    (fun h => (h.characteristics, h.timeDateStamp, h.majorVersion, h.minorVersion,
      h.numberOfNamedEntries, h.numberOfIdEntries))
    (fun _ => rfl) (fun _ => rfl)

/-- The number of entries that follow. -/
def totalEntries (h : DirectoryHeader) : Nat :=
  h.numberOfNamedEntries.toNat + h.numberOfIdEntries.toNat

end DirectoryHeader

/-- An entry of a directory. The highest bit of each field tells how the others are meant. -/
structure DirectoryEntry where
  nameOrId : UInt32
  offsetToData : UInt32
  deriving DecidableEq, Repr

namespace DirectoryEntry

/-- The places of the fields. -/
def layout : Layout DirectoryEntry :=
  (Layout.u32.pair .u32).equiv (fun (a, b) => ⟨a, b⟩) (fun e => (e.nameOrId, e.offsetToData))
    (fun _ => rfl) (fun _ => rfl)

/-- The value of the highest bit. -/
def highBit : Nat := 0x80000000

/-- Whether the entry is called by a text. -/
def isNamed (e : DirectoryEntry) : Bool :=
  highBit ≤ e.nameOrId.toNat

/-- The offset of the text. -/
def nameOffset (e : DirectoryEntry) : Nat :=
  e.nameOrId.toNat % highBit

/-- The number of an entry that is not called by a text. -/
def id (e : DirectoryEntry) : UInt16 :=
  e.nameOrId.toUInt16

/-- Whether the entry leads to a directory. -/
def isDirectory (e : DirectoryEntry) : Bool :=
  highBit ≤ e.offsetToData.toNat

/-- The offset of the directory or data entry to which the entry leads. -/
def dataOffset (e : DirectoryEntry) : Nat :=
  e.offsetToData.toNat % highBit

end DirectoryEntry

/-- The place of the data of a resource. -/
structure DataEntry where
  /-- The address of the data. -/
  offsetToData : UInt32
  size : UInt32
  codePage : UInt32
  reserved : UInt32
  deriving DecidableEq, Repr

/-- The places of the fields. -/
def DataEntry.layout : Layout DataEntry :=
  open Layout in
  (u32.pair <| u32.pair <| u32.pair u32).equiv
    (fun (a, b, c, d) => ⟨a, b, c, d⟩)
    (fun e => (e.offsetToData, e.size, e.codePage, e.reserved))
    (fun _ => rfl) (fun _ => rfl)

end PeCoff.Resource
