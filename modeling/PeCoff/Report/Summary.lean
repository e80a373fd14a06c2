import PeCoff.DebugFile
import PeCoff.Executable

/-!
# Summaries

One-line summaries of a decoded file, for messages to a developer.
-/

namespace PeCoff.Report

/-- The named fields of a record in braces; what is left out is shown by dots. -/
def fieldsText (type : String) (fields : List (String × String)) (others : Bool) : String :=
  let shown := fields.map fun (name, value) => s!"{name}: {value}"
  let dots := if others then [".."] else []
  type ++ " \x7b " ++ ", ".intercalate (shown ++ dots) ++ " \x7d"

/-- The fields of a COFF header. -/
def coffHeaderSummary (h : CoffHeader) : String :=
  fieldsText "CoffHeader" [
    ("machine", toString h.machine.toNat),
    ("number_of_sections", toString h.numberOfSections.toNat),
    ("time_date_stamp", toString h.timeDateStamp.toNat),
    ("pointer_to_symbol_table", toString h.pointerToSymbolTable.toNat),
    ("number_of_symbols", toString h.numberOfSymbols.toNat),
    ("size_of_optional_header", toString h.sizeOfOptionalHeader.toNat),
    ("characteristics", toString h.characteristics.toNat)] false

/-- An image in one line. -/
def executableSummary (e : Executable) : String :=
  fieldsText "PeFile" [
    ("size", toString e.image.size),
    ("nt_offset", toString e.headerOffset),
    ("coff_header", coffHeaderSummary e.coffHeader),
    ("sections", toString e.sections.length)] true

/-- The fields of the header of a split debug file. -/
def debugHeaderSummary (h : DebugHeader) : String :=
  fieldsText "SeparateDebugHeader" [
    ("signature", toString FileKind.debugSignature.toNat),
    ("flags", toString h.flags.toNat),
    ("machine", toString h.machine.toNat),
    ("characteristics", toString h.characteristics.toNat),
    ("time_date_stamp", toString h.timeDateStamp.toNat),
    ("check_sum", toString h.checkSum.toNat),
    ("image_base", toString h.imageBase.toNat),
    ("size_of_image", toString h.sizeOfImage.toNat),
    ("number_of_sections", toString h.numberOfSections.toNat),
    ("exported_names_size", toString h.exportedNamesSize.toNat),
    ("debug_directory_size", toString h.debugDirectorySize.toNat),
    ("section_alignment", toString h.sectionAlignment.toNat)] false

/-- A split debug file in one line. -/
def debugFileSummary (d : DebugFile) : String :=
  fieldsText "DbgFile" [
    ("size", toString d.image.size),
    ("header", debugHeaderSummary d.header)] true

end PeCoff.Report
