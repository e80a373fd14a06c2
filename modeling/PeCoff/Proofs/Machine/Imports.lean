import Mathlib
import PeCoff.Executable
import PeCoff.Proofs.Machine.Headers

/-!
# Imports and thread-local storage on a machine

The directories whose tables have no length: the imported libraries, the libraries loaded on first
use and the functions called for each thread. Every table ends at an element that cannot be read, so
each decoder is a walk. A walk ends in any memory; where it is a fault that an answer is too short,
the lemmas say so by `Settles`, and in an exact memory there are no such answers. The main
statements are `imports_eq`, `delayedImports_eq` and `threadStorage_eq`.
-/

namespace PeCoff.Machine

open PeCoff.Import

variable {reader : Reader} {memory : Memory} {wide : Bool} {address : Nat}

/-! ## Thunks -/

/-- The number of a pointer's width at an address. -/
def pointer (reader : Reader) (wide : Bool) (address : Nat) : Step (Option UInt64) := do
  if wide then
    reader.fetch? .u64 address
  else
    return (← reader.fetch? .u32 address).map UInt32.toUInt64

/-- The hint and the name at an address. -/
def hintName (reader : Reader) (address : Nat) : Step (Option (UInt16 × String)) := do
  match ← reader address 2 with
  | none => return none
  | some bs =>
    match ← andThen (checkedAdd 32 address 2) (text reader) with
    | none => return none
    | some name => return some (← fetch .u16 bs 0, name)

/-- The function that a thunk names. -/
def thunk (reader : Reader) (wide : Bool) (bias value : UInt64) : Step Thunk := do
  if Thunk.isOrdinal wide value then return .ordinal value.toUInt16
  let found ← andThen (checkedSub value.toNat bias.toNat) fun distance =>
    hintName reader (distance % 2 ^ 32)
  match found with
  | some (hint, name) => return .named hint name value.toUInt32
  | none => return .unresolved value.toUInt32

/-- The thunk at an address; a zero ends the array. -/
def thunkAt (reader : Reader) (wide : Bool) (bias : UInt64) (address : Nat) :
    Step (Option (Option Thunk)) := do
  match ← pointer reader wide address with
  | none => return none
  | some value =>
    if value = 0 then return some none
    return some (some (← thunk reader wide bias value))

/-- The thunks of an array, if its first one can be read. -/
def thunks (reader : Reader) (wide : Bool) (bias : UInt64) (address : Nat) :
    Step (Option (List Thunk)) :=
  walk (Memory.pointerWidth wide) (thunkAt reader wide bias) address

/-- A number of a pointer's width is read unless an answer is too short. -/
lemma pointer_settles (h : reader.Answers memory) (haddress : address < 2 ^ 32) :
    Settles (¬ memory.Exact) (pointer reader wide address) (memory.pointer? wide address) := by
  rw [pointer, Memory.pointer?]
  cases wide with
  | true => exact h.fetch?_settles (by decide) haddress
  | false =>
    rw [if_neg Bool.false_ne_true, if_neg Bool.false_ne_true]
    exact (h.fetch?_settles (by decide) haddress).bind (.ok _)

/-- A hint and a name are read unless an answer is too short. -/
lemma hintName_settles (h : reader.Answers memory) (haddress : address < 2 ^ 32) :
    Settles (¬ memory.Exact) (hintName reader address) (Thunk.hintName? memory address) := by
  rw [hintName, h _ _ haddress (by decide), Thunk.hintName?, Memory.record?,
    show Layout.u16.size = 2 from rfl]
  cases hbs : memory address 2 with
  | none => exact .ok none
  | some bs =>
    simp only [ok_bind, Option.bind_eq_bind, Option.bind_some]
    -- A hint in the last two bytes of the memory has no name after it.
    by_cases hname : address + 2 < 2 ^ 32
    · have hguard : (guard (address + 2 < addressLimit) : Option Unit) = some () := if_pos hname
      rw [checkedAdd_eq hname, hguard]
      simp only [andThen, h.text_eq hname, ok_bind, Option.bind_some]
      obtain ⟨hdecode, hfetch⟩ | ⟨hshort, hdecode, hfetch⟩ :=
        fetch_front_cases bs (show Layout.u16.size < 2 ^ 64 by decide)
      · rw [hdecode]
        cases memory.text (address + 2) with
        | none => exact .ok none
        | some name =>
          simp only [hfetch]
          exact .ok _
      · rw [hdecode]
        cases memory.text (address + 2) with
        | none => exact .ok none
        | some name =>
          simp only [hfetch]
          exact .stop (fun hexact => absurd (hexact _ _ _ hbs) (Nat.ne_of_lt hshort)) _
    · have hguard : (guard (address + 2 < addressLimit) : Option Unit) = none := if_neg hname
      rw [checkedAdd_eq_none (Nat.not_lt.mp hname), hguard]
      cases Layout.u16.decode? bs <;> exact .ok none

/-- A thunk is decoded unless an answer is too short. -/
lemma thunk_settles (h : reader.Answers memory) (bias value : UInt64) :
    Settles (¬ memory.Exact) (thunk reader wide bias value)
      (Thunk.decode memory wide bias value) := by
  rw [thunk, Thunk.decode]
  by_cases hordinal : Thunk.isOrdinal wide value
  · rw [if_pos hordinal, if_pos hordinal]
    exact .ok _
  rw [if_neg hordinal, if_neg hordinal]
  have hfound : Settles (¬ memory.Exact)
      (andThen (checkedSub value.toNat bias.toNat) fun distance =>
        hintName reader (distance % 2 ^ 32))
      (if bias ≤ value then Thunk.hintName? memory (value - bias).toUInt32.toNat else none) := by
    by_cases hle : bias ≤ value
    · have hdistance : (value - bias).toUInt32.toNat = (value.toNat - bias.toNat) % 2 ^ 32 := by
        rw [UInt64.toNat_toUInt32, UInt64.toNat_sub_of_le _ _ hle]
      rw [checkedSub_eq (UInt64.le_iff_toNat_le.mp hle), if_pos hle, hdistance]
      exact hintName_settles h (Nat.mod_lt _ (by decide))
    · rw [checkedSub_eq_none (fun hnat => hle (UInt64.le_iff_toNat_le.mpr hnat)), if_neg hle]
      exact .ok none
  refine hfound.bind ?_
  generalize (if bias ≤ value then Thunk.hintName? memory (value - bias).toUInt32.toNat
    else none) = found
  cases found <;> exact .ok _

/-- A pointer takes more than one byte. -/
lemma two_le_pointerWidth (wide : Bool) : 2 ≤ Memory.pointerWidth wide := by
  cases wide <;> decide

/-- An array of thunks as a table without a length: a thunk is read as a number, and a zero ends
the array. -/
lemma elements_thunkAt (h : reader.Answers memory) (bias : UInt64) :
    Elements (¬ memory.Exact) (Memory.pointerWidth wide) (thunkAt reader wide bias)
      (memory.pointer? wide) (Thunk.at? memory wide bias) where
  two_le_stride := two_le_pointerWidth wide
  settles place hplace := by
    refine (pointer_settles h hplace).bind ?_
    rw [Thunk.at?]
    cases memory.pointer? wide place with
    | none => exact .ok none
    | some value =>
      by_cases hzero : value = 0
      · rw [hzero]
        exact .ok _
      · simp only [hzero, if_false]
        exact (thunk_settles h bias value).bind (.of_eq (by simp [hzero]))
  eq_none place hnone := by
    rw [Thunk.at?, hnone]
    rfl

/-- Without a first thunk there is no array. -/
lemma array_eq_map_walk (memory : Memory) (wide : Bool) (bias : UInt64) (address : Nat) :
    Thunk.array memory wide bias address = (memory.pointer? wide address).map fun _ =>
      PeCoff.walk (Memory.pointerWidth wide) (Thunk.at? memory wide bias) address := by
  rw [Thunk.array]
  cases memory.pointer? wide address <;> rfl

/-- The thunks of an array are found unless an answer is too short. -/
lemma thunks_settles (h : reader.Answers memory) (haddress : address < 2 ^ 32) (bias : UInt64) :
    Settles (¬ memory.Exact) (thunks reader wide bias address)
      (Thunk.array memory wide bias address) := by
  rw [array_eq_map_walk]
  exact (elements_thunkAt h bias).walk_settles haddress

/-! ## Imported libraries -/

/-- The library whose descriptor lies at an address. -/
def library (reader : Reader) (wide : Bool) (address : Nat) : Step (Option (Option Library)) := do
  match ← reader.record? Descriptor.layout address with
  | none => return none
  | some descriptor =>
    if descriptor.isTerminator then return some none
    let name ← text reader descriptor.name.toNat
    let thunks ← thunks reader wide 0 descriptor.lookupAddress.toNat
    return some (some { address, descriptor, name, thunks })

/-- The contents of the import directory at an address. -/
def importTable (reader : Reader) (wide : Bool) (address size : UInt32) : Step Table := do
  let libraries ← walk Descriptor.layout.size (library reader wide) address.toNat
  return ⟨size, libraries.getD []⟩

/-- The import directory as a table without a length: a library is read as a descriptor, which may
end the table. -/
lemma elements_library (h : reader.Answers memory) :
    Elements (¬ memory.Exact) Descriptor.layout.size (library reader wide)
      (memory.record? Descriptor.layout) (Library.at? memory wide) where
  two_le_stride := by decide
  settles place hplace := by
    rw [library, h.record?_eq (by decide) hplace, Library.at?]
    cases memory.record? Descriptor.layout place with
    | none => exact .ok none
    | some descriptor =>
      have hname : descriptor.name.toNat < 2 ^ 32 := UInt32.toNat_lt _
      have hlookup : descriptor.lookupAddress.toNat < 2 ^ 32 := UInt32.toNat_lt _
      simp only [ok_bind, h.text_eq hname]
      by_cases hend : descriptor.isTerminator
      · rw [if_pos hend]
        exact .of_eq (by simp [hend, guard])
      · rw [if_neg hend]
        exact (thunks_settles h hlookup 0).bind (.of_eq (by simp [hend, guard]))
  eq_none place hnone := by
    rw [Library.at?, hnone]
    rfl

/-- The imported libraries are found unless an answer is too short. -/
lemma importTable_settles (h : reader.Answers memory) (address size : UInt32) :
    Settles (¬ memory.Exact) (importTable reader wide address size)
      (Table.decode memory wide address size) :=
  (elements_library h).table_settles address.toNat_lt (Table.mk size)

/-- In an exact memory the imported libraries are found without a fault. -/
lemma importTable_eq (h : reader.Serves memory) (address size : UInt32) :
    importTable reader wide address size = .ok (Table.decode memory wide address size) :=
  (importTable_settles h.answers address size).eq_ok (not_not.mpr h.exact)

/-- The imported libraries. -/
def imports (e : Executable) : Step (Option Table) := do
  match ← directory e DirectorySlot.imports.index with
  | none => return none
  | some (range, _) => return some (← importTable (Machine.memory e) e.isWide range.address range.size)

/-- The imports of an executable are decoded without a fault. -/
theorem imports_eq {e : Executable} (h : Fits e.image) : imports e = .ok e.imports := by
  rw [imports, directory_eq h, Executable.imports]
  cases e.directoryOf .imports with
  | none => rfl
  | some found => simp [importTable_eq (memory_serves h)]

/-! ## Libraries loaded on first use -/

/-- A pointer of a descriptor as an address. -/
def toAddress (d : DelayedDescriptor) (imageBase : UInt64) (pointer : UInt32) : Option Nat :=
  (checkedSub pointer.toNat (d.bias imageBase).toNat).bind fun address =>
    if address < 2 ^ 32 then some address else none

/-- The library whose descriptor lies at an address. -/
def delayedLibrary (reader : Reader) (wide : Bool) (imageBase : UInt64) (address : Nat) :
    Step (Option (Option DelayedLibrary)) := do
  match ← reader.record? DelayedDescriptor.layout address with
  | none => return none
  | some descriptor =>
    if descriptor.isTerminator then return some none
    let name ← andThen (toAddress descriptor imageBase descriptor.name) (text reader)
    let thunks ← andThen (toAddress descriptor imageBase descriptor.nameTable)
      (thunks reader wide (descriptor.bias imageBase))
    return some (some { address, descriptor, name, thunks })

/-- The contents of the delay-load directory at an address. -/
def delayedTable (reader : Reader) (wide : Bool) (imageBase : UInt64) (address size : UInt32) :
    Step DelayedTable := do
  let libraries ←
    walk DelayedDescriptor.layout.size (delayedLibrary reader wide imageBase) address.toNat
  return ⟨size, libraries.getD []⟩

/-- A pointer of a descriptor is made an address without an underflow. -/
lemma toAddress_eq (d : DelayedDescriptor) (imageBase : UInt64) (pointer : UInt32) :
    toAddress d imageBase pointer = d.toAddress imageBase pointer := by
  have hpointer := pointer.toNat_lt
  rw [toAddress, DelayedDescriptor.toAddress]
  -- A pointer has 32 bits, and so has what is left of it after the subtraction.
  by_cases hle : (d.bias imageBase).toNat ≤ pointer.toNat
  · rw [checkedSub_eq hle, if_pos hle, Option.bind_some, if_pos (by omega)]
  · rw [checkedSub_eq_none hle, if_neg hle]
    rfl

/-- The address of a pointer has 32 bits. -/
lemma toAddress_lt {d : DelayedDescriptor} {imageBase : UInt64} {pointer : UInt32} {place : Nat}
    (h : d.toAddress imageBase pointer = some place) : place < 2 ^ 32 := by
  have hpointer := pointer.toNat_lt
  simp only [DelayedDescriptor.toAddress, Option.ite_none_right_eq_some,
    Option.some.injEq] at h
  omega

/-- The delay-load directory as a table without a length: a library is read as a descriptor, which
may end the table. -/
lemma elements_delayedLibrary (h : reader.Answers memory) (imageBase : UInt64) :
    Elements (¬ memory.Exact) DelayedDescriptor.layout.size (delayedLibrary reader wide imageBase)
      (memory.record? DelayedDescriptor.layout) (DelayedLibrary.at? memory wide imageBase) where
  two_le_stride := by decide
  settles place hplace := by
    rw [delayedLibrary, h.record?_eq (by decide) hplace, DelayedLibrary.at?]
    cases memory.record? DelayedDescriptor.layout place with
    | none => exact .ok none
    | some descriptor =>
      -- Name and array are looked for only where the descriptor gives them an address.
      have hname : andThen (descriptor.toAddress imageBase descriptor.name) (text reader) =
          .ok ((descriptor.toAddress imageBase descriptor.name).bind memory.text) :=
        andThen_eq fun _ hfound => h.text_eq (toAddress_lt hfound)
      have hthunks : Settles (¬ memory.Exact)
          (andThen (descriptor.toAddress imageBase descriptor.nameTable)
            (thunks reader wide (descriptor.bias imageBase)))
          ((descriptor.toAddress imageBase descriptor.nameTable).bind
            (Thunk.array memory wide (descriptor.bias imageBase))) :=
        andThen_settles fun _ hfound => thunks_settles h (toAddress_lt hfound) _
      simp only [ok_bind, toAddress_eq, hname]
      by_cases hend : descriptor.isTerminator
      · rw [if_pos hend]
        exact .of_eq (by simp [hend, guard])
      · rw [if_neg hend]
        exact hthunks.bind (.of_eq (by simp [hend, guard]))
  eq_none place hnone := by
    rw [DelayedLibrary.at?, hnone]
    rfl

/-- The libraries that are loaded on first use are found unless an answer is too short. -/
lemma delayedTable_settles (h : reader.Answers memory) (imageBase : UInt64)
    (address size : UInt32) :
    Settles (¬ memory.Exact) (delayedTable reader wide imageBase address size)
      (DelayedTable.decode memory wide imageBase address size) :=
  (elements_delayedLibrary h imageBase).table_settles address.toNat_lt (DelayedTable.mk size)

/-- In an exact memory the libraries that are loaded on first use are found without a fault. -/
lemma delayedTable_eq (h : reader.Serves memory) (imageBase : UInt64) (address size : UInt32) :
    delayedTable reader wide imageBase address size =
      .ok (DelayedTable.decode memory wide imageBase address size) :=
  (delayedTable_settles h.answers imageBase address size).eq_ok (not_not.mpr h.exact)

/-- The libraries that are loaded on first use. -/
def delayedImports (e : Executable) : Step (Option DelayedTable) := do
  match ← directory e DirectorySlot.delayImports.index with
  | none => return none
  | some (range, _) =>
    return some (← delayedTable (Machine.memory e) e.isWide e.imageBase range.address range.size)

/-- The delay-load directory of an executable is decoded without a fault. -/
theorem delayedImports_eq {e : Executable} (h : Fits e.image) :
    delayedImports e = .ok e.delayedImports := by
  rw [delayedImports, directory_eq h, Executable.delayedImports]
  cases e.directoryOf .delayImports with
  | none => rfl
  | some found => simp [delayedTable_eq (memory_serves h)]

/-! ## Thread-local storage -/

open ThreadStorage

/-- The address of the array of functions, relative to an image base. -/
def callbackArray (d : Directory) (imageBase : UInt64) : Option Nat :=
  (checkedSub d.callbacks.toNat imageBase.toNat).bind fun address =>
    if address < 2 ^ 32 ∧ d.callbacks ≠ 0 then some address else none

/-- The function at an address of the array; a zero ends the array. -/
def callback (reader : Reader) (wide : Bool) (address : Nat) : Step (Option (Option UInt64)) := do
  match ← pointer reader wide address with
  | none => return none
  | some value => return some (if value = 0 then none else some value)

/-- The header of the directory held by a byte string. -/
def threadDirectory (wide : Bool) (bs : Bytes) : Step (Option Directory) := do
  if wide then
    parse Directory.wideLayout bs
  else
    return (← parse Directory.narrowLayout bs).map Directory.ofNarrow

/-- The directory held by a byte string, with the functions that lie in memory. -/
def threadInfo (reader : Reader) (wide : Bool) (imageBase : UInt64) (bs : Bytes) :
    Step (Option Info) := do
  match ← threadDirectory wide bs with
  | none => return none
  | some directory =>
    let callbacks ← andThen (callbackArray directory imageBase)
      (walk (Memory.pointerWidth wide) (callback reader wide))
    return some ⟨directory, callbacks.getD []⟩

/-- The place of the functions is found without an underflow. -/
lemma callbackArray_eq (d : Directory) (imageBase : UInt64) :
    callbackArray d imageBase = d.callbackArray? imageBase := by
  rw [callbackArray, Directory.callbackArray?]
  by_cases hle : imageBase ≤ d.callbacks
  · rw [checkedSub_eq (UInt64.le_iff_toNat_le.mp hle), Option.bind_some]
    simp [hle, addressLimit, and_comm]
  · rw [checkedSub_eq_none fun hnat => hle (UInt64.le_iff_toNat_le.mpr hnat)]
    simp [hle]

/-- The functions called for each thread as a table without a length: a function is read as a
number, and a zero ends the table. -/
lemma elements_callback (h : reader.Answers memory) :
    Elements (¬ memory.Exact) (Memory.pointerWidth wide) (callback reader wide)
      (memory.pointer? wide) (Info.callback? memory wide) where
  two_le_stride := two_le_pointerWidth wide
  settles place hplace := by
    refine (pointer_settles h hplace).bind ?_
    rw [Info.callback?]
    cases memory.pointer? wide place with
    | none => exact .ok none
    | some value => by_cases hzero : value = 0 <;> exact .of_eq (by simp [hzero, guard])
  eq_none place hnone := by
    rw [Info.callback?, hnone]
    rfl

/-- Decoding with an error and without one agree. -/
lemma toOption_decode {α : Type} (l : Layout α) (bs : Bytes) :
    (l.decode bs).toOption = l.decode? bs := by
  rw [Layout.decode]
  cases l.decode? bs <;> rfl

/-- The header of the directory is decoded without a fault in both widths. -/
lemma threadDirectory_eq {bs : Bytes} (hbs : bs.length < 2 ^ 64) :
    threadDirectory wide bs = .ok (Directory.decode wide bs).toOption := by
  rw [threadDirectory, Directory.decode]
  cases wide with
  | true => rw [if_pos rfl, if_pos rfl, parse_eq hbs, toOption_decode]
  | false =>
    have hmap : (Directory.ofNarrow <$> Directory.narrowLayout.decode bs).toOption =
        (Directory.narrowLayout.decode? bs).map Directory.ofNarrow := by
      rw [← toOption_decode]
      cases Directory.narrowLayout.decode bs <;> rfl
    rw [if_neg Bool.false_ne_true, if_neg Bool.false_ne_true, parse_eq hbs, hmap]
    rfl

/-- The address of the functions has 32 bits. -/
lemma callbackArray?_lt {d : Directory} {imageBase : UInt64} {place : Nat}
    (h : d.callbackArray? imageBase = some place) : place < 2 ^ 32 := by
  simp only [Directory.callbackArray?, Option.ite_none_right_eq_some, Option.some.injEq] at h
  obtain ⟨⟨-, -, hlimit⟩, rfl⟩ := h
  exact hlimit

/-- The directory is decoded with its functions unless an answer is too short. -/
lemma threadInfo_settles (h : reader.Answers memory) (imageBase : UInt64) {bs : Bytes}
    (hbs : bs.length < 2 ^ 64) :
    Settles (¬ memory.Exact) (threadInfo reader wide imageBase bs)
      (Info.decode memory wide imageBase bs) := by
  rw [threadInfo, threadDirectory_eq hbs, Info.decode]
  cases (Directory.decode wide bs).toOption with
  | none => exact .ok none
  | some directory =>
    -- The directory is decoded without the memory; only the walk over the array can run on.
    have hwalk : Settles (¬ memory.Exact)
        (andThen (directory.callbackArray? imageBase)
          (walk (Memory.pointerWidth wide) (callback reader wide)))
        ((directory.callbackArray? imageBase).bind fun place =>
          (memory.pointer? wide place).map fun _ =>
            PeCoff.walk (Memory.pointerWidth wide) (Info.callback? memory wide) place) :=
      andThen_settles fun _ hplace => (elements_callback h).walk_settles (callbackArray?_lt hplace)
    have hcallbacks : ((directory.callbackArray? imageBase).bind fun place =>
        (memory.pointer? wide place).map fun _ => PeCoff.walk (Memory.pointerWidth wide)
          (Info.callback? memory wide) place).getD [] =
        Info.callbacksOf memory wide imageBase directory := by
      rw [Info.callbacksOf]
      cases directory.callbackArray? imageBase with
      | none => rfl
      | some place => exact (elements_callback h).getD_eq place
    simp only [ok_bind, callbackArray_eq, Option.bind_eq_bind, Option.bind_some]
    rw [← hcallbacks]
    exact hwalk.bind (.ok _)

/-- In an exact memory the directory is decoded with its functions without a fault. -/
lemma threadInfo_eq (h : reader.Serves memory) (imageBase : UInt64) {bs : Bytes}
    (hbs : bs.length < 2 ^ 64) :
    threadInfo reader wide imageBase bs = .ok (Info.decode memory wide imageBase bs) :=
  (threadInfo_settles h.answers imageBase hbs).eq_ok (not_not.mpr h.exact)

/-- The thread-local storage. -/
def threadStorage (e : Executable) : Step (Option Info) := do
  match ← directory e DirectorySlot.threadStorage.index with
  | none => return none
  | some (range, _) =>
    match ← Machine.memory e range.address.toNat (Directory.size e.isWide) with
    | none => return none
    | some bs => threadInfo (Machine.memory e) e.isWide e.imageBase bs

/-- The thread-local storage of an executable is decoded without a fault. -/
theorem threadStorage_eq {e : Executable} (h : Fits e.image) :
    threadStorage e = .ok e.threadStorage := by
  have hsize : Directory.size e.isWide < 2 ^ 64 := by cases e.isWide <;> decide
  rw [threadStorage, directory_eq h, Executable.threadStorage]
  cases e.directoryOf .threadStorage with
  | none => rfl
  | some found =>
    simp only [ok_bind, (memory_serves h).read_eq _ _ found.1.address.toNat_lt hsize,
      Option.bind_eq_bind, Option.bind_some]
    cases hbs : e.memory found.1.address.toNat (Directory.size e.isWide) with
    | none => rfl
    | some bs =>
      have hlength := e.memory_exact _ _ _ hbs
      simp only [Option.bind_some]
      exact threadInfo_eq (memory_serves h) _ (by omega)

end PeCoff.Machine
