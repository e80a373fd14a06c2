/-!
# Numbers as text

Hexadecimal and decimal numbers, and text brought to a least width. A width never cuts: a number
with more digits than the width keeps them all.
-/

namespace PeCoff.Text

/-- Characters brought to a width by filling up on the left. -/
def padLeft (width : Nat) (fill : Char) (cs : List Char) : List Char :=
  List.replicate (width - cs.length) fill ++ cs

/-- Characters brought to a width by filling up on the right. -/
def padRight (width : Nat) (fill : Char) (cs : List Char) : List Char :=
  cs ++ List.replicate (width - cs.length) fill

/-- Lower-case hexadecimal digits without leading zeros. -/
def hexDigits (n : Nat) : List Char :=
  Nat.toDigits 16 n

/-- A lower-case hexadecimal number without leading zeros. -/
def hex (n : Nat) : String :=
  String.ofList (hexDigits n)

/-- A lower-case hexadecimal number of at least `width` digits. -/
def hexOf (width n : Nat) : String :=
  String.ofList (padLeft width '0' (hexDigits n))

/-- An upper-case hexadecimal number without leading zeros. -/
def upperHex (n : Nat) : String :=
  String.ofList ((hexDigits n).map Char.toUpper)

/-- An upper-case hexadecimal number of at least `width` digits. -/
def upperHexOf (width n : Nat) : String :=
  String.ofList (padLeft width '0' ((hexDigits n).map Char.toUpper))

/-- A decimal number of at least `width` digits. -/
def decimalOf (width n : Nat) : String :=
  String.ofList (padLeft width '0' (Nat.toDigits 10 n))

/-- Text set to the right of a column, blanks before it. -/
def alignRight (width : Nat) (s : String) : String :=
  String.ofList (padLeft width ' ' s.toList)

/-- Text set to the left of a column, blanks after it. -/
def alignLeft (width : Nat) (s : String) : String :=
  String.ofList (padRight width ' ' s.toList)

/-- Text set to the left of a column that it must not exceed. -/
def fitLeft (width : Nat) (s : String) : String :=
  String.ofList (padRight width ' ' (s.toList.take width))

end PeCoff.Text
