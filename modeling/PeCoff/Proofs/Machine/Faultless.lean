import Mathlib
import PeCoff.Proofs.Build
import PeCoff.Proofs.Machine.Report.Document

/-!
# Freedom from faults

A machine of 64 bits decodes every file that it can hold, and writes every report on it, without a
fault: no access past the end of a table, no number that does not fit, and no loop without an end.
What it decodes and writes is what the decoders and reports give without a machine. The main
statement is `faultless_of_fits`.
-/

namespace PeCoff.Machine

open Report

/-- A machine decodes every directory of an image and writes every report on it without a fault. -/
structure Faultless (e : Executable) : Prop where
  exports : exports e = .ok e.exports
  exportSymbols : ∀ tag, exportSymbols e tag = .ok (e.exportSymbols tag)
  imports : imports e = .ok e.imports
  delayedImports : delayedImports e = .ok e.delayedImports
  debugEntries : debugEntries e = .ok e.debugEntries
  resources : resources e = .ok e.resources
  relocations : relocations e = .ok e.relocations
  threadStorage : threadStorage e = .ok e.threadStorage
  commonRuntime : commonRuntime e = .ok e.commonRuntime
  exceptions : exceptions e = .ok e.exceptions
  report : ∀ options, printExecutable options e = .ok (executable .basic options e)

variable {image : Image}

/-- No query of a decoded executable is a fault. -/
lemma faultless_of_parse (h : Fits image) {e : Executable} (he : Executable.parse image = .ok e) :
    Faultless e := by
  have hfits : Fits e.image := by rwa [(image_of_parse he).1]
  exact {
    exports := exports_eq hfits
    exportSymbols := exportSymbols_eq hfits
    imports := imports_eq hfits
    delayedImports := delayedImports_eq hfits
    debugEntries := debugEntries_eq hfits
    resources := resources_eq hfits
    relocations := relocations_eq hfits
    threadStorage := threadStorage_eq hfits
    commonRuntime := commonRuntime_eq hfits
    exceptions := exceptions_eq hfits
    report := printExecutable_eq h he }

/-- A machine tells what kind of file it has and decodes its headers without a fault, whatever the
file holds. When the headers are those of an image, it decodes each directory and writes each report
without a fault, and so it does for the reports on a split debug file. -/
theorem faultless_of_fits (h : Fits image) :
    detectKind image = .ok (FileKind.detect image) ∧
      parseExecutable image = .ok (Executable.parse image) ∧
      parseDebugFile image = .ok (DebugFile.parse image) ∧
      (∀ e, Executable.parse image = .ok e → Faultless e) ∧
      ∀ d, DebugFile.parse image = .ok d → ∀ options,
        printDebugFile options d = .ok (debugFile .basic options d) :=
  ⟨detectKind_eq h, parseExecutable_eq h, parseDebugFile_eq h, fun _ => faultless_of_parse h,
    fun _ hd => printDebugFile_eq h hd⟩

/-- An image with an export directory whose tables are longer than its section. -/
def cutImage : Image :=
  Build.image ⟨0x1000, 40⟩ [(0x1000, (Build.exportBytes 0x1000 [0x2000, 0] [0x1036] [1]).take 44)]

/-- A split debug file with one section and one piece of frame pointer records. -/
def splitFile : Image :=
  .ofList <| Layout.u16.write FileKind.debugSignature
    ++ DebugHeader.fields.write { DebugHeader.fields.read fun _ => 0 with
      numberOfSections := 1
      debugDirectorySize := UInt32.ofNat DebugInfo.Directory.layout.size }
    ++ List.replicate 8 0
    ++ SectionHeader.layout.write (SectionHeader.layout.read fun _ => 0)
    ++ DebugInfo.Directory.layout.write { DebugInfo.Directory.layout.read fun _ => 0 with
      debugType := 3
      sizeOfData := 16 }

/-- Both kinds of files are reported on without a fault. -/
theorem faultless_of_fits_samples :
    (∃ e, Executable.parse cutImage = .ok e ∧ e.exportDirectory.isSome ∧ Faultless e) ∧
      ∃ d, DebugFile.parse splitFile = .ok d ∧ d.debugEntries.isSome ∧ ∀ options,
        printDebugFile options d = .ok (debugFile .basic options d) := by
  obtain ⟨e, he, hdirectory⟩ : ∃ e, Executable.parse cutImage = .ok e ∧ e.exportDirectory.isSome :=
    Build.exists_of_any (by decide +kernel)
  obtain ⟨d, hd, hentries⟩ : ∃ d, DebugFile.parse splitFile = .ok d ∧ d.debugEntries.isSome :=
    Build.exists_of_any (by decide +kernel)
  have hcut : Fits cutImage := by
    unfold Fits
    decide +kernel
  have hsplit : Fits splitFile := by
    unfold Fits
    decide +kernel
  obtain ⟨-, -, -, hfaultless, -⟩ := faultless_of_fits hcut
  obtain ⟨-, -, -, -, hreport⟩ := faultless_of_fits hsplit
  exact ⟨⟨e, he, hdirectory, hfaultless e he⟩, d, hd, hentries, hreport d hd⟩

end PeCoff.Machine
