import Mathlib
import PeCoff.Proofs.Machine.DebugFiles
import PeCoff.Proofs.Machine.Exports
import PeCoff.Proofs.Machine.Imports
import PeCoff.Proofs.Machine.Payload
import PeCoff.Proofs.Machine.Streams
import PeCoff.Report.Directories

/-!
# Directories in a report of a machine

The directories of an image as text, resources aside. Each is decoded anew for its text. The main
statements are `printImports_eq`, `printExports_eq`, `printDebug_eq` and `printExceptions_eq`.
-/

namespace PeCoff.Machine

open Report Text

variable {e : Executable}

/-! ## Imports -/

/-- The file offset of a descriptor; zero for one that no section holds. -/
def descriptorOffset (e : Executable) (address : Nat) : Step Nat := do
  return (← resolve e.sections address 1).getD 0

/-- The lines of libraries, each with the file offset of its descriptor. -/
def printLibraries {α : Type} (e : Executable) (address : α → Nat) (render : Nat → α → List String)
    (libraries : List α) : Step (List (List String)) :=
  libraries.mapM fun l => do return render (← descriptorOffset e (address l)) l

/-- The imported libraries. -/
def printImports (e : Executable) : Step String := do
  match ← imports e with
  | none => return ""
  | some table =>
    let libraries ← printLibraries e Import.Library.address libraryLines table.libraries
    return Report.importTable table.size libraries

/-- The libraries that are loaded on first use. -/
def printDelayedImports (e : Executable) : Step String := do
  match ← delayedImports e with
  | none => return ""
  | some table =>
    let libraries ←
      printLibraries e Import.DelayedLibrary.address delayedLibraryLines table.libraries
    return Report.delayedTable table.size libraries

/-- The file offset of each descriptor is computed without an overflow. -/
lemma printLibraries_eq {α : Type} (e : Executable) (address : α → Nat)
    (render : Nat → α → List String) (libraries : List α) :
    printLibraries e address render libraries =
      .ok (libraries.map fun l => render (Report.descriptorOffset e (address l)) l) := by
  apply mapM_eq
  intro l _
  rw [descriptorOffset, resolve_eq]
  rfl

/-- The imports are printed without a fault. -/
lemma printImports_eq (h : Fits e.image) : printImports e = .ok (Report.imports e) := by
  rw [printImports, imports_eq h, Report.imports]
  simp only [ok_bind]
  cases e.imports with
  | none => rfl
  | some table =>
    simp only [printLibraries_eq]
    rfl

/-- The delay-load directory is printed without a fault. -/
lemma printDelayedImports_eq (h : Fits e.image) :
    printDelayedImports e = .ok (Report.delayedImports e) := by
  rw [printDelayedImports, delayedImports_eq h, Report.delayedImports]
  simp only [ok_bind]
  cases e.delayedImports with
  | none => rfl
  | some table =>
    simp only [printLibraries_eq]
    rfl

/-! ## Exports -/

/-- Whether an error ends a report. Only a failure to allocate or to write does, and no decoder
gives one. -/
def isFatal : DecodeError → Bool
  | .dosSignature | .peSignature | .debugSignature | .tooShort _ _ | .outOfBounds _ _
  | .unmapped _ | .missingTable _ => false

/-- The exported functions. -/
def printExports (e : Executable) : Step String := do
  match ← exportDirectory e with
  | none => return ""
  | some directory =>
    let libraryName ← text (memory e) directory.libraryName.toNat
    match ← exports e with
    | .error error =>
      if isFatal error then throw (.abandoned error)
      return Report.exportTable libraryName directory (.error error)
    | .ok table => return Report.exportTable libraryName directory (.ok table)

/-- No error of decoding makes a report give up. -/
lemma isFatal_eq (error : DecodeError) : isFatal error = false := by
  cases error <;> rfl

/-- The exports are printed without a fault. -/
lemma printExports_eq (h : Fits e.image) : printExports e = .ok (Report.exports e) := by
  rw [printExports, exportDirectory_eq h, Report.exports]
  cases e.exportDirectory with
  | none => rfl
  | some directory =>
    have hname : text (memory e) directory.libraryName.toNat =
        .ok (e.memory.text directory.libraryName.toNat) :=
      text_eq (memory_serves h) directory.libraryName.toNat_lt
    simp only [ok_bind, hname, exports_eq h]
    cases e.exports with
    | ok table => rfl
    | error error =>
      simp only [isFatal_eq]
      rfl

/-! ## Debug information -/

/-- The data of a piece of debug information fits into a memory. -/
def PayloadFits : DebugInfo.Payload → Prop
  | .coff data | .codeView data | .framePointers data => ∀ bs, data = some bs → bs.length < 2 ^ 64
  | .misc _ | .miscUnavailable | .none => True

/-- The contents of a piece of debug information. -/
def printPayload (sections : List SectionHeader) : DebugInfo.Payload → Step String
  | .misc misc => return lines (miscLines misc)
  | .miscUnavailable => return line "Can't get misc debug information"
  | .coff data => coffDebug data sections
  | .codeView data => codeView data
  | .framePointers data => framePointers data
  | .none => return ""

/-- All pieces of debug information. -/
def printDebugTable (sections : List SectionHeader) (entries : List DebugInfo.Entry) :
    Step String := do
  let rows ← entries.zipIdx.mapM fun (entry, place) => do
    let number ← add 64 place 1
    return debugEntryOf number entry.directory (← printPayload sections entry.payload)
  return debugList rows

/-- The debug information of an image. -/
def printDebug (e : Executable) : Step String := do
  match ← debugEntries e with
  | none | some [] => return ""
  | some entries => return (← printDebugTable e.sections entries) ++ line ""

/-- The debug directory is printed without a fault, if its entries can be numbered. -/
lemma printDebugTable_eq (sections : List SectionHeader) {entries : List DebugInfo.Entry}
    (hcount : entries.length < 2 ^ 32) (h : ∀ entry ∈ entries, PayloadFits entry.payload) :
    printDebugTable sections entries =
      .ok (Report.debugTable PayloadFormat.basic sections entries) := by
  have hrow : ∀ p ∈ entries.zipIdx, (do
      let number ← add 64 p.2 1
      return debugEntryOf number p.1.directory (← printPayload sections p.1.payload)) =
        (.ok (debugEntry PayloadFormat.basic sections p.2 p.1) : Step String) := by
    intro p hp
    have hplace : p.2 < entries.length := List.snd_lt_of_mem_zipIdx hp
    have hfits := h p.1 (List.fst_mem_of_mem_zipIdx hp)
    -- The number that is shown is one more than the place.
    rw [add_eq (by omega), debugEntry]
    simp only [ok_bind]
    cases hpayload : p.1.payload with
    | misc misc => rfl
    | miscUnavailable => rfl
    | none => rfl
    | coff data =>
      rw [hpayload] at hfits
      simp only [printPayload, coffDebug_eq hfits]
      rfl
    | codeView data =>
      rw [hpayload] at hfits
      simp only [printPayload, codeView_eq hfits]
      rfl
    | framePointers data =>
      simp only [printPayload, framePointers_eq]
      rfl
  rw [printDebugTable, mapM_eq hrow]
  rfl

/-- A debug directory has fewer entries than bytes, and all pieces of it come from the file. -/
lemma payloadFits_of_mem_decodeAll {image : Image} {table : Bytes} :
    ∀ entry ∈ DebugInfo.Entry.decodeAll image.read table, PayloadFits entry.payload := by
  intro entry hentry
  obtain ⟨directory, _, rfl⟩ := List.mem_map.mp hentry
  have hlength : ∀ bs, image.read directory.pointerToRawData.toNat directory.sizeOfData.toNat =
      some bs → bs.length < 2 ^ 64 := fun _ => length_read_lt
  simp only [DebugInfo.Entry.payloadOf]
  split
  · exact hlength
  · exact hlength
  · exact hlength
  · split <;> trivial
  · trivial

/-- A table has no more entries than bytes. -/
lemma length_decodeAll_le (image : Image) (table : Bytes) :
    (DebugInfo.Entry.decodeAll image.read table).length ≤ table.length := by
  rw [DebugInfo.Entry.decodeAll, List.length_map, Layout.length_decodeAll]
  exact Nat.div_le_self _ _

/-- The debug directory of an executable is printed without a fault. -/
lemma printDebug_eq (h : Fits e.image) :
    printDebug e = .ok (debug PayloadFormat.basic e) := by
  have htable : ∀ entries, e.debugEntries = some entries →
      printDebugTable e.sections entries =
        .ok (Report.debugTable PayloadFormat.basic e.sections entries) := by
    intro entries hentries
    obtain ⟨⟨range, table⟩, hfound, rfl⟩ := Option.map_eq_some_iff.mp hentries
    have hcount := Nat.lt_of_le_of_lt (length_decodeAll_le e.image table)
      (length_directoryOf_lt hfound)
    exact printDebugTable_eq _ hcount payloadFits_of_mem_decodeAll
  rw [printDebug, debugEntries_eq h, debug]
  simp only [ok_bind]
  cases hentries : e.debugEntries with
  | none => rfl
  | some entries =>
    cases entries with
    | nil => rfl
    | cons entry rest =>
      simp only [htable _ hentries]
      rfl

/-! ## Directories without a fault of their own -/

/-- The thread-local storage. -/
def printThreadStorage (e : Executable) : Step String := do
  return ((← threadStorage e).map Report.threadInfo).getD ""

/-- The header of the common language runtime. -/
def printCommonRuntime (e : Executable) : Step String := do
  return ((← commonRuntime e).map runtimeHeader).getD ""

/-- The base relocations. -/
def printRelocations (e : Executable) : Step String := do
  return ((← relocations e).map Report.relocationTable).getD ""

/-- The thread-local storage is printed without a fault. -/
lemma printThreadStorage_eq (h : Fits e.image) :
    printThreadStorage e = .ok (Report.threadStorage e) := by
  rw [printThreadStorage, threadStorage_eq h]
  rfl

/-- The header of the common runtime is printed without a fault. -/
lemma printCommonRuntime_eq (h : Fits e.image) :
    printCommonRuntime e = .ok (Report.commonRuntime e) := by
  rw [printCommonRuntime, commonRuntime_eq h]
  rfl

/-- The relocations are printed without a fault. -/
lemma printRelocations_eq (h : Fits e.image) :
    printRelocations e = .ok (Report.relocations e) := by
  rw [printRelocations, relocations_eq h]
  rfl

/-! ## Exceptions -/

/-- The name of a register, of whose number four bits count. -/
def registerName (register : Nat) : Step String :=
  index Unwind.registerNames (register % 16)

/-- What an unwind code undoes. -/
def printOperation (i : Unwind.Info) : Unwind.Operation → Step String
  | .push register => return s!"push %{← registerName register.val}"
  | .allocate size => return s!"sub $0x{hex size.toNat},%rsp"
  | .setFrameRegister => do
    let distance ← mul 32 i.frameOffset.toNat 16
    return s!"lea 0x{hex distance}(%rsp),{← registerName i.frameRegister.toNat}"
  | .save register offset =>
    return s!"mov %{← registerName register.val},0x{hex offset.toNat}(%rsp)"
  | .saveVector register offset =>
    return s!"movaps %xmm{register.val},0x{hex offset.toNat}(%rsp)"
  | .pushMachineFrame info => return s!"PUSH_MACHFRAME {info.val}"
  | .unknown code => return s!"*** unknown code {code.val}"

/-- The lines of unwind information. -/
def printUnwind (i : Unwind.Info) : Step (List String) := do
  let frame ←
    if i.frameRegister ≠ 0 then
      let register ← registerName i.frameRegister.toNat
      pure [frameRegisterLine register (← mul 32 i.frameOffset.toNat 16)]
    else
      pure []
  let codes ← i.codes.mapM fun c => do return codeLine c.offset (← printOperation i c.operation)
  return unwindLinesOf i frame codes

/-- The lines of a function and what its unwind address leads to. -/
def printException (entry : Unwind.Entry) : Step (List String) := do
  let detail ←
    match entry.detail with
    | .info info => pure (unwindPlace entry.function :: (← printUnwind info))
    | detail => pure (detailLines entry.function detail)
  return exceptionLinesOf entry.function detail

/-- The exception table, which is understood for one machine only. -/
def printExceptions (e : Executable) : Step String := do
  match ← exceptions e with
  | none => return ""
  | some entries =>
    if e.coffHeader.machine = machineAmd64 then
      return Report.exceptionTable entries.length (← entries.mapM printException)
    else
      return exceptionsUnsupported e.coffHeader.machine

/-- The name of a register is looked up without a fault. -/
lemma registerName_eq (register : Nat) :
    registerName register = .ok (Unwind.registerName register) := by
  have hlt : register % 16 < Unwind.registerNames.length := Nat.mod_lt _ (by decide)
  rw [registerName, index_eq hlt, Unwind.registerName, List.getD_eq_getElem _ _ hlt]

/-- The text of an unwind operation is made without a fault. -/
lemma printOperation_eq (i : Unwind.Info) (operation : Unwind.Operation) :
    printOperation i operation = .ok (operationText i operation) := by
  have hoffset := i.frameOffset.toNat_lt
  cases operation with
  | setFrameRegister =>
    rw [printOperation, mul_eq (by omega), registerName_eq]
    rfl
  | push register | save register offset =>
    rw [printOperation, registerName_eq]
    rfl
  | _ => rfl

/-- The lines of unwind information are made without a fault. -/
lemma printUnwind_eq (i : Unwind.Info) : printUnwind i = .ok (unwindLines i) := by
  have hoffset := i.frameOffset.toNat_lt
  have hcodes : ∀ c ∈ i.codes, (do
      return codeLine c.offset (← printOperation i c.operation) : Step String) =
        .ok (codeLine c.offset (operationText i c.operation)) := by
    intro c _
    rw [printOperation_eq]
    rfl
  rw [printUnwind, unwindLines, registerName_eq, mul_eq (by omega), mapM_eq hcodes]
  by_cases hframe : i.frameRegister ≠ 0
  · simp only [if_pos hframe]
    rfl
  · simp only [if_neg hframe]
    rfl

/-- The lines of a function of the exception table are made without a fault. -/
lemma printException_eq (entry : Unwind.Entry) :
    printException entry = .ok (exceptionLines entry) := by
  rw [printException, exceptionLines]
  cases entry.detail with
  | info info =>
    simp only [printUnwind_eq]
    rfl
  | _ => rfl

/-- The exception table is printed without a fault. -/
lemma printExceptions_eq (h : Fits e.image) :
    printExceptions e = .ok (Report.exceptions e) := by
  rw [printExceptions, exceptions_eq h, Report.exceptions]
  simp only [ok_bind]
  cases e.exceptions with
  | none => rfl
  | some entries =>
    simp only [mapM_eq fun entry (_ : entry ∈ entries) => printException_eq entry]
    split <;> rfl

end PeCoff.Machine
