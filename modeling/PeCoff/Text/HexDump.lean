import PeCoff.Bytes
import PeCoff.Text.Number

/-!
# Hex dumps

Sixteen bytes to a line: the offset, the bytes in hexadecimal with a dash in the middle, and the
same bytes as characters, a dot for each that is not printable. A short last line is filled up with
blanks, so that the character column stays in place.
-/

namespace PeCoff.Text.HexDump

/-- The number of bytes on one line. -/
def perLine : Nat := 16

/-- A byte as a character, or a dot. -/
def printable (b : UInt8) : Char :=
  if 32 ≤ b.toNat ∧ b.toNat < 127 then Char.ofNat b.toNat else '.'

/-- The byte at place `i` of a line, and the separator after it. -/
def cell (i : Nat) (b : UInt8) : List Char :=
  padLeft 2 '0' (hexDigits b.toNat) ++ [if i = 7 then '-' else ' ']

/-- What stands before the bytes of the line that starts at `offset`. -/
def leading (title : List Char) (offset : Nat) : List Char :=
  title ++ padLeft 8 '0' (hexDigits offset) ++ [':', ' ']

/-- The columns of one line. -/
def columns (row : Bytes) : List Char :=
  (row.zipIdx.flatMap fun (b, i) => cell i b)
    ++ List.replicate (3 * (perLine - row.length) + 1) ' '
    ++ row.map printable

/-- One line without its line break. -/
def line (title : List Char) (index : Nat) (row : Bytes) : List Char :=
  leading title (perLine * index) ++ columns row

/-- The lines of a dump. Data without bytes has one line, with an offset and nothing after it. -/
def lines (title : List Char) (data : Bytes) : List (List Char) :=
  if data = [] then [leading title 0]
  else (data.rows perLine).zipIdx.map fun (row, i) => line title i row

/-- A dump, or a line that says that there is no data. -/
def render (title : String) (data : Option Bytes) : String :=
  match data with
  | none => String.ofList (leading title.toList 0) ++ "NULL\n"
  | some bytes => String.ofList ((lines title.toList bytes).flatMap fun l => l ++ ['\n'])

end PeCoff.Text.HexDump
