import PeCoff.Layout

/-!
# Data directories

The optional header of an image ends with sixteen slots, each with the address and size of one
directory. Which directory a slot describes is fixed by its place.
-/

namespace PeCoff

/-- The address and size of a directory. -/
structure DataDirectory where
  address : UInt32
  size : UInt32
  deriving DecidableEq, Repr

namespace DataDirectory

/-- The places of the fields. -/
def layout : Layout DataDirectory :=
  (Layout.u32.pair .u32).equiv (fun (a, b) => ⟨a, b⟩) (fun d => (d.address, d.size))
    (fun _ => rfl) (fun _ => rfl)

/-- A slot is in use when one of its fields is not zero. -/
def isPresent (d : DataDirectory) : Bool :=
  d.address != 0 || d.size != 0

/-- Whether an address lies in the directory; the end of the directory may exceed 32 bits. -/
def contains (d : DataDirectory) (address : UInt32) : Bool :=
  d.address ≤ address && address.toNat < d.address.toNat + d.size.toNat

end DataDirectory

/-- The number of slots that an optional header can hold. -/
def slotCount : Nat := 16

/-- What the slots describe. -/
inductive DirectorySlot where
  | exports
  | imports
  | resources
  | exceptions
  /-- Certificates are the one directory that is placed by file offset. -/
  | certificates
  | relocations
  | debug
  | architecture
  | globalPointer
  | threadStorage
  | loadConfiguration
  | boundImports
  | addressTable
  | delayImports
  | commonRuntime
  | reserved
  deriving DecidableEq, Repr

namespace DirectorySlot

/-- The slots in the order of the header. -/
def all : List DirectorySlot :=
  [exports, imports, resources, exceptions, certificates, relocations, debug, architecture,
    globalPointer, threadStorage, loadConfiguration, boundImports, addressTable, delayImports,
    commonRuntime, reserved]

/-- The slot at a place. -/
def ofIndex? (index : Nat) : Option DirectorySlot :=
  all[index]?

/-- The place of a slot. -/
def index (slot : DirectorySlot) : Nat :=
  all.idxOf slot

/-- The label of a slot in the listing of the optional header. -/
def title : DirectorySlot → String
  | exports => "EXPORT"
  | imports => "IMPORT"
  | resources => "RESOURCE"
  | exceptions => "EXCEPTION"
  | certificates => "SECURITY"
  | relocations => "BASERELOC"
  | debug => "DEBUG"
  | architecture => "ARCHITECTURE"
  | globalPointer => "GLOBALPTR"
  | threadStorage => "TLS"
  | loadConfiguration => "LOAD_CONFIG"
  | boundImports => "Bound IAT"
  | addressTable => "IAT"
  | delayImports => "Delay IAT"
  | commonRuntime => "CLR Header"
  | reserved => ""

end DirectorySlot

end PeCoff
