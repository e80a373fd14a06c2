import Mathlib
import PeCoff.Proofs.Import.Stored
import PeCoff.Proofs.Layout

/-!
# Import directories there and back

An import directory is written for a list of modules, each a name and a list of requests by ordinal
or by hint and name. The main statements are `storedDirectory_write`, by which a file that holds
what was written stores the modules, and `decode_of_stored`, by which modules that are stored in any
way and in either width of pointers are decoded to themselves.
-/

namespace PeCoff.Import

/-- What is asked of a library: a function by its ordinal, or by a hint and a name. -/
inductive Request where
  | ordinal (ordinal : UInt16)
  | named (hint : UInt16) (name : String)
  deriving DecidableEq, Repr

/-- A library and what is asked of it. -/
structure Module where
  name : String
  requests : List Request
  deriving DecidableEq, Repr

/-- What a thunk asks for, unless its name cannot be read. -/
def Thunk.request? : Thunk → Option Request
  | .ordinal n => some (.ordinal n)
  | .named hint name _ => some (.named hint name)
  | .unresolved _ => none

/-- What is asked of a library, if all of it can be read. -/
def Library.module? (l : Library) : Option Module := do
  let name ← l.name
  let thunks ← l.thunks
  let requests ← thunks.mapM Thunk.request?
  return { name, requests }

/-! ## Writing -/

/-- Text can be stored as a string: it has no zero and is not longer than strings are followed. -/
def FitsText (s : String) : Prop :=
  0 ∉ Text.toUtf8 s ∧ (Text.toUtf8 s).length ≤ Image.maxString

instance (s : String) : Decidable (FitsText s) :=
  inferInstanceAs (Decidable (_ ∧ _))

/-- The bytes of text and of the zero behind it. -/
def textBytes (s : String) : Bytes :=
  Text.toUtf8 s ++ [0]

namespace Request

/-- The hint and the name of a request. -/
def record : Request → Bytes
  | ordinal _ => []
  | named hint name => Layout.u16.write hint ++ textBytes name

/-- The thunk of a request whose hint and name lie at an address. -/
def thunk (address : Nat) : Request → Thunk
  | ordinal n => .ordinal n
  | named hint name => .named hint name (UInt32.ofNat address)

/-- The number of a request whose hint and name lie at an address. -/
def value (wide : Bool) (address : Nat) : Request → UInt64
  | ordinal n => ordinalFlag wide + n.toUInt64
  | named _ _ => (UInt32.ofNat address).toUInt64

/-- The name of a request can be stored. -/
def Fits : Request → Prop
  | ordinal _ => True
  | named _ name => FitsText name

instance : (r : Request) → Decidable r.Fits
  | ordinal _ => inferInstanceAs (Decidable True)
  | named _ name => inferInstanceAs (Decidable (FitsText name))

end Request

namespace Module

variable (wide : Bool) (address : Nat) (m : Module)

/-- The requests of a module that lies at an address, with the addresses of their records. They lie
behind the name. -/
def placedRequests : List (Nat × Request) :=
  places (fun r => r.record.length) (address + (textBytes m.name).length) m.requests

/-- The address of the thunks of a module that lies at an address. They lie behind the records. -/
def thunksAddress : Nat :=
  address + (textBytes m.name).length + (m.requests.flatMap Request.record).length

/-- The bytes of the thunks of a module that lies at an address. -/
def thunkBytes : Bytes :=
  (m.placedRequests address).flatMap (fun p => Memory.pointerBytes wide (p.2.value wide p.1))
    ++ Memory.pointerBytes wide 0

/-- The bytes of a module that lies at an address: its name, its records and its thunks. -/
def bytes : Bytes :=
  textBytes m.name ++ m.requests.flatMap Request.record ++ m.thunkBytes wide address

/-- The number of bytes of a module. -/
def size : Nat :=
  (textBytes m.name).length + (m.requests.flatMap Request.record).length
    + (m.requests.length + 1) * Memory.pointerWidth wide

/-- The descriptor of a module that lies at an address. Its thunks are those of the address table,
and also those of the lookup table if there is one. -/
def descriptor (lookup : Bool) : Descriptor where
  lookupTable := if lookup then UInt32.ofNat (m.thunksAddress address) else 0
  timeDateStamp := 0
  forwarderChain := 0
  name := UInt32.ofNat address
  addressTable := UInt32.ofNat (m.thunksAddress address)

/-- The library of a module that lies at an address and has its descriptor at another. -/
def library (lookup : Bool) (descriptorAddress : Nat) : Library where
  address := descriptorAddress
  descriptor := m.descriptor address lookup
  name := some m.name
  thunks := some ((m.placedRequests address).map fun p => p.2.thunk p.1)

/-- The names of a module can be stored. -/
def Fits : Prop :=
  FitsText m.name ∧ ∀ r ∈ m.requests, r.Fits

instance : Decidable m.Fits :=
  inferInstanceAs (Decidable (_ ∧ _))

end Module

/-- Modules with their addresses, behind the descriptors of a directory at an address. -/
def placedModules (wide : Bool) (address : Nat) (modules : List Module) : List (Nat × Module) :=
  places (Module.size wide) (address + 20 * modules.length + 20) modules

/-- The bytes of an import directory at an address: the descriptors, with lookup tables or without,
a descriptor of zeros, and the modules. -/
def write (lookup wide : Bool) (address : Nat) (modules : List Module) : Bytes :=
  (placedModules wide address modules).flatMap
      (fun p => Descriptor.layout.write (p.2.descriptor p.1 lookup))
    ++ Descriptor.layout.write ⟨0, 0, 0, 0, 0⟩
    ++ (placedModules wide address modules).flatMap (fun p => p.2.bytes wide p.1)

/-- The libraries of placed modules, with descriptors from an address on. -/
def placedLibraries (lookup : Bool) : (address : Nat) → List (Nat × Module) → List Library
  | _, [] => []
  | address, p :: ps => p.2.library p.1 lookup address :: placedLibraries lookup (address + 20) ps

/-! ## What was written is stored -/

variable {α : Type} {image : Image} {lookup wide : Bool} {address : Nat} {xs ys : Bytes}

/-- Of bytes that are placed each half is. -/
lemma Placed.append (h : Placed image address (xs ++ ys)) :
    Placed image address xs ∧ Placed image (address + xs.length) ys := by
  obtain ⟨hx, hy⟩ := Image.holds_append_iff.mp h.holds
  have haddress := h.address_ne_zero
  have hend := h.end_le
  rw [List.length_append] at hend
  exact ⟨⟨haddress, by omega, hx⟩, ⟨by omega, by omega, hy⟩⟩

/-- The address of placed bytes fits into its field. -/
lemma Placed.toNat_ofNat (h : Placed image address xs) :
    (UInt32.ofNat address).toNat = address := by
  have hend := h.end_le
  exact UInt32.toNat_ofNat_of_lt' (by simp only [UInt32.size]; omega)

/-- Written text is placed text. -/
lemma placedText_of_fits {s : String} (hfits : FitsText s)
    (h : Placed image address (textBytes s)) : PlacedText image address s :=
  ⟨h, hfits.1, hfits.2⟩

/-- Elements that are written one after the other lie at their places. -/
lemma placed_of_mem_places {size : α → Nat} (body : Nat → α → Bytes) {as : List α}
    (hsize : ∀ address a, (body address a).length = size a)
    (h : Placed image address ((places size address as).flatMap fun p => body p.1 p.2)) :
    ∀ p ∈ places size address as, Placed image p.1 (body p.1 p.2) := by
  induction as generalizing address with
  | nil => exact List.forall_mem_nil _
  | cons a as ih =>
    obtain ⟨hfirst, hrest⟩ := h.append
    rw [hsize] at hrest
    exact List.forall_mem_cons.mpr ⟨hfirst, ih hrest⟩

/-- A request whose record is in place is stored as a number. -/
lemma Request.stored {r : Request} (hfits : r.Fits) (h : Placed image address r.record) :
    StoredThunk image wide (r.thunk address) (r.value wide address) := by
  cases r with
  | ordinal n => exact .ordinal n
  | named hint name =>
    obtain ⟨hhint, hname⟩ := h.append
    apply StoredThunk.named
    · rw [hhint.toNat_ofNat]
      exact hhint
    · rw [hhint.toNat_ofNat]
      exact placedText_of_fits hfits hname

/-- Numbers of stored requests that are written one after the other, and a zero, are an array. -/
lemma storedThunks_of_placed {ps : List (Nat × Request)}
    (hstored : ∀ p ∈ ps, StoredThunk image wide (p.2.thunk p.1) (p.2.value wide p.1))
    (h : Placed image address (ps.flatMap (fun p => Memory.pointerBytes wide (p.2.value wide p.1))
      ++ Memory.pointerBytes wide 0)) :
    StoredThunks image wide address (ps.map fun p => p.2.thunk p.1) := by
  induction ps generalizing address with
  | nil => exact .nil h
  | cons p ps ih =>
    obtain ⟨hp, hps⟩ := List.forall_mem_cons.mp hstored
    rw [List.flatMap_cons, List.append_assoc] at h
    obtain ⟨hvalue, hrest⟩ := h.append
    rw [Memory.length_pointerBytes] at hrest
    exact .cons hvalue hp (ih hps hrest)

namespace Module

variable {m : Module}

/-- A module is written in as many bytes as its size says. -/
lemma length_bytes (wide : Bool) (address : Nat) (m : Module) :
    (m.bytes wide address).length = m.size wide := by
  have hplaced : (m.placedRequests address).length = m.requests.length := by
    rw [← List.length_map Prod.snd, placedRequests, map_snd_places]
  have harray : (m.thunkBytes wide address).length =
      (m.requests.length + 1) * Memory.pointerWidth wide := by
    simp only [thunkBytes, List.length_append, List.length_flatMap, Memory.length_pointerBytes,
      List.map_const', List.sum_replicate, smul_eq_mul, hplaced, Nat.succ_mul]
  simp only [bytes, size, List.length_append, harray]

/-- A module that lies at an address is stored, if its descriptor is in place. -/
lemma stored {descriptorAddress : Nat} (hfits : m.Fits)
    (hdescriptor : Placed image descriptorAddress (Descriptor.layout.write
      (m.descriptor address lookup)))
    (h : Placed image address (m.bytes wide address)) :
    StoredLibrary image wide (m.library address lookup descriptorAddress) := by
  obtain ⟨hfront, harray⟩ := h.append
  obtain ⟨hname, hrecords⟩ := hfront.append
  rw [List.length_append, ← Nat.add_assoc] at harray
  have hrequests : (m.placedRequests address).map Prod.snd = m.requests := map_snd_places _ _ _
  have hrecord : ∀ p ∈ m.placedRequests address, Placed image p.1 p.2.record := by
    apply placed_of_mem_places (fun _ => Request.record) fun _ _ => rfl
    rw [← hrequests, List.flatMap_map] at hrecords
    exact hrecords
  have hstored : ∀ p ∈ m.placedRequests address,
      StoredThunk image wide (p.2.thunk p.1) (p.2.value wide p.1) := by
    intro p hp
    have hmem : p.2 ∈ m.requests := by
      rw [← hrequests]
      exact List.mem_map_of_mem hp
    exact Request.stored (hfits.2 _ hmem) (hrecord p hp)
  have haddress : (UInt32.ofNat (m.thunksAddress address)).toNat = m.thunksAddress address :=
    harray.toNat_ofNat
  -- An address table at zero would end the list of descriptors.
  have hne : UInt32.ofNat (m.thunksAddress address) ≠ 0 := by
    intro hzero
    rw [hzero] at haddress
    exact harray.address_ne_zero haddress.symm
  exact {
    descriptor := hdescriptor
    addressTable_ne_zero := hne
    name := by
      refine ⟨m.name, rfl, ?_⟩
      simp only [library, descriptor, hname.toNat_ofNat]
      exact placedText_of_fits hfits.1 hname
    thunks := by
      refine ⟨_, rfl, ?_⟩
      -- A descriptor without a lookup table is read through its address table, so both forms lead
      -- to the same array.
      have hlookup : (if (m.library address lookup descriptorAddress).descriptor.lookupTable = 0
          then (m.library address lookup descriptorAddress).descriptor.addressTable
          else (m.library address lookup descriptorAddress).descriptor.lookupTable) =
            UInt32.ofNat (m.thunksAddress address) := by
        cases lookup with
        | true => simp [library, descriptor, hne]
        | false => simp [library, descriptor]
      rw [hlookup, haddress]
      exact storedThunks_of_placed hstored harray }

end Module

/-- Modules whose bytes are in place are stored as an array of descriptors. -/
lemma storedDirectory_of_placed {ps : List (Nat × Module)} (hfits : ∀ p ∈ ps, p.2.Fits)
    (hplaced : ∀ p ∈ ps, Placed image p.1 (p.2.bytes wide p.1))
    (h : Placed image address
      (ps.flatMap (fun p => Descriptor.layout.write (p.2.descriptor p.1 lookup))
        ++ Descriptor.layout.write ⟨0, 0, 0, 0, 0⟩)) :
    StoredDirectory image wide address (placedLibraries lookup address ps) := by
  -- The modules lie where they lie, so that only the address of the descriptors moves on.
  induction ps generalizing address with
  | nil => exact .nil h (.inl rfl)
  | cons p ps ih =>
    obtain ⟨hfits, hfits_rest⟩ := List.forall_mem_cons.mp hfits
    obtain ⟨hplaced, hplaced_rest⟩ := List.forall_mem_cons.mp hplaced
    rw [List.flatMap_cons, List.append_assoc] at h
    obtain ⟨hdescriptor, hrest⟩ := h.append
    exact .cons (Module.stored hfits hdescriptor hplaced) (ih hfits_rest hplaced_rest hrest)

/-- A file that holds what was written for modules stores them. -/
theorem storedDirectory_write {modules : List Module} (hfits : ∀ m ∈ modules, m.Fits)
    (h : Placed image address (write lookup wide address modules)) :
    StoredDirectory image wide address
      (placedLibraries lookup address (placedModules wide address modules)) := by
  obtain ⟨hdescriptors, hbodies⟩ := h.append
  have hmodules : (placedModules wide address modules).map Prod.snd = modules :=
    map_snd_places _ _ _
  apply storedDirectory_of_placed _ _ hdescriptors
  · intro p hp
    apply hfits
    rw [← hmodules]
    exact List.mem_map_of_mem hp
  · apply placed_of_mem_places (Module.bytes wide) (Module.length_bytes wide)
    have hlength : (placedModules wide address modules).length = modules.length := by
      rw [← hmodules, List.length_map, hmodules]
    have hsize (p : Nat × Module) :
        (Descriptor.layout.write (p.2.descriptor p.1 lookup)).length = 20 :=
      Layout.length_write _ _
    simp only [List.length_append, List.length_flatMap, hsize, List.map_const', List.sum_replicate,
      smul_eq_mul, hlength, Layout.length_write] at hbodies
    rw [Nat.mul_comm, ← Nat.add_assoc] at hbodies
    exact hbodies

/-- The thunk of a request asks for it. -/
lemma Request.request?_thunk (address : Nat) (r : Request) :
    (r.thunk address).request? = some r := by
  cases r with
  | ordinal n => rfl
  | named hint name => rfl

/-- The library of a module asks for all that the module does. -/
lemma Module.module?_library (address : Nat) (lookup : Bool) (descriptorAddress : Nat)
    (m : Module) :
    (m.library address lookup descriptorAddress).module? = some m := by
  have hthunks (ps : List (Nat × Request)) :
      (ps.map fun p => p.2.thunk p.1).mapM Thunk.request? = some (ps.map Prod.snd) := by
    induction ps with
    | nil => rfl
    | cons p ps ih => simp [Request.request?_thunk, ih]
  have hrequests : (m.placedRequests address).map Prod.snd = m.requests := map_snd_places _ _ _
  simp [Library.module?, library, hthunks, hrequests]

/-- The libraries of placed modules ask for what the modules ask for. -/
lemma map_module?_placedLibraries (ps : List (Nat × Module)) :
    (placedLibraries lookup address ps).map Library.module? = (ps.map Prod.snd).map some := by
  induction ps generalizing address with
  | nil => rfl
  | cons p ps ih =>
    simp only [placedLibraries, List.map_cons, Module.module?_library, ih]

/-- What was written for modules is decoded to them, whatever lies before and behind it. -/
theorem map_module?_decode_write {modules : List Module} (hfits : ∀ m ∈ modules, m.Fits)
    {front : Bytes} (back : Bytes) (hfront : front ≠ [])
    (hend : front.length + (write lookup wide front.length modules).length ≤ 2 ^ 31)
    (zeroReadable : Bool) (size : UInt32) :
    (Table.decode (.flat (.ofList (front ++ write lookup wide front.length modules ++ back))
      zeroReadable) wide (UInt32.ofNat front.length) size).libraries.map Library.module? =
        modules.map some := by
  have hplaced : Placed (.ofList (front ++ write lookup wide front.length modules ++ back))
      front.length (write lookup wide front.length modules) :=
    ⟨mt List.length_eq_zero_iff.mp hfront, hend, Image.holds_ofList _ _ _⟩
  have hstored := storedDirectory_write hfits hplaced
  rw [Table.decode, hplaced.toNat_ofNat, hstored.walk_eq, map_module?_placedLibraries,
    placedModules, map_snd_places]

/-- Modules that are stored, anywhere and in either width, are decoded to themselves: the
descriptors lie one after the other, and other files that store the same modules are decoded to the
same. -/
theorem decode_of_stored {start : UInt32} {libraries : List Library} {modules : List Module}
    (h : StoredDirectory image wide start.toNat libraries)
    (hmodules : libraries.map Library.module? = modules.map some) (zeroReadable : Bool)
    (size : UInt32) :
    Table.decode (.flat image zeroReadable) wide start size = ⟨size, libraries⟩ ∧
    (∀ k l, libraries[k]? = some l → l.address = start.toNat + 20 * k) ∧
    ∀ {image' wide' libraries'} {start' : UInt32} (zeroReadable' size'),
      StoredDirectory image' wide' start'.toNat libraries' →
      libraries'.map Library.module? = modules.map some →
      (Table.decode (.flat image' zeroReadable') wide' start' size').libraries.map
          Library.module? =
        (Table.decode (.flat image zeroReadable) wide start size).libraries.map
          Library.module? := by
  have hdecode : Table.decode (.flat image zeroReadable) wide start size = ⟨size, libraries⟩ := by
    rw [Table.decode, h.walk_eq]
  refine ⟨hdecode, fun k l hl => h.address_eq hl, ?_⟩
  intro image' wide' libraries' start' zeroReadable' size' h' hmodules'
  rw [hdecode, hmodules, Table.decode, h'.walk_eq, hmodules']

/-- Two modules: one with a request of either kind, and one without requests. -/
def sampleModules : List Module :=
  [⟨"KERNEL32.dll", [.ordinal 7, .named 513 "Sleep"]⟩, ⟨"Ä", []⟩]

/-- A file that stores the modules between other bytes. The narrow one has lookup tables. -/
def sampleImage (wide : Bool) : Image :=
  .ofList ([1, 2, 3, 4] ++ write (!wide) wide 4 sampleModules ++ [5, 6])

/-- The sample image stores what was written for the sample modules. -/
lemma storedDirectory_sample (wide : Bool) : StoredDirectory (sampleImage wide) wide 4
    (placedLibraries (!wide) 4 (placedModules wide 4 sampleModules)) := by
  apply storedDirectory_write
  · decide +kernel
  · refine ⟨by decide, ?_, Image.holds_ofList [1, 2, 3, 4] _ [5, 6]⟩
    cases wide <;> decide +kernel

/-- The sample is decoded to the same modules in both widths. -/
theorem decode_of_stored_sample :
    (Table.decode (.flat (sampleImage false) false) false 4 0).libraries.map Library.module? =
      sampleModules.map some ∧
    (Table.decode (.flat (sampleImage true) false) true 4 0).libraries.map Library.module? =
      (Table.decode (.flat (sampleImage false) false) false 4 0).libraries.map Library.module? := by
  have hmodules (wide : Bool) :
      (placedLibraries (!wide) 4 (placedModules wide 4 sampleModules)).map Library.module? =
        sampleModules.map some := by
    rw [map_module?_placedLibraries, placedModules, map_snd_places]
  have hnarrow : StoredDirectory (sampleImage false) false (4 : UInt32).toNat _ :=
    storedDirectory_sample false
  have hstored : StoredDirectory (sampleImage true) true (4 : UInt32).toNat _ :=
    storedDirectory_sample true
  obtain ⟨hdecode, -, hwide⟩ := decode_of_stored hnarrow (hmodules false) false 0
  refine ⟨?_, hwide false 0 hstored (hmodules true)⟩
  rw [hdecode]
  exact hmodules false

end PeCoff.Import
