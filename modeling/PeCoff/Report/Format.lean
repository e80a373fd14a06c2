import PeCoff.Text.Number
import PeCoff.Text.Timestamp

/-!
# Report lines

The lines of a report that occur in more than one place: a title in a column and a value after it.
-/

namespace PeCoff.Report

open Text

/-- A line with its line break. -/
def line (s : String) : String :=
  s ++ "\n"

/-- Lines with their line breaks. -/
def lines (ls : List String) : String :=
  String.join (ls.map line)

/-- The title of a value, filled up to the column of the values. -/
def titled (title value : String) : String :=
  s!"  {alignLeft 34 title} {value}"

/-- A 16-bit value in hexadecimal and decimal. -/
def word (title : String) (value : UInt16) : String :=
  titled title s!"0x{alignLeft 4 (upperHex value.toNat)}         {value.toNat}"

/-- A 32-bit value in hexadecimal and decimal. -/
def doubleWord (title : String) (value : UInt32) : String :=
  titled title s!"0x{alignLeft 8 (hex value.toNat)}     {value.toNat}"

/-- A 64-bit value in hexadecimal. -/
def quadWord (title : String) (value : UInt64) : String :=
  titled title s!"0x{hex value.toNat}"

/-- A version number: the minor part has two digits. -/
def versionNumber (major minor : Nat) : String :=
  s!"{major}.{decimalOf 2 minor}"

/-- A version number with a title. -/
def version (title : String) (major minor : Nat) : String :=
  titled title (versionNumber major minor)

/-- The labels of flags, each on a line. -/
def labelLines (labels : List String) : List String :=
  labels.map fun label => s!"    {label}"

/-- A time stamp as a number and as text. -/
def stampText (stamp : UInt32) : String :=
  s!"{upperHexOf 8 stamp.toNat} ({timestamp stamp})"

/-- A title in a column of given width and the address and size of a directory. -/
def directoryLine (width : Nat) (title : String) (address size : UInt32) : String :=
  let number (n : UInt32) := s!"0x{alignLeft 8 (hex n.toNat)}"
  s!"  {alignLeft width title} rva: {number address}  size: {number size}"

end PeCoff.Report
