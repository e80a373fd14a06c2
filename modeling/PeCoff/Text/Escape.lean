import PeCoff.Bytes
import PeCoff.Text.Number

/-!
# Escaped text

Text written with backslash escapes, so that a report line stays one line of printable characters.
Bytes and UTF-16 units above 127 become hexadecimal escapes, control characters become a letter or
an octal escape, a backslash is doubled, and one zero at the very end is left out. An escape of
variable length is written out in full whenever the character after it would lengthen it.
-/

namespace PeCoff.Text.Escape

/-- The escape letter of a control character that has one. -/
def letter? (c : Nat) : Option Char :=
  match c with
  | 7 => some 'a'
  | 8 => some 'b'
  | 9 => some 't'
  | 10 => some 'n'
  | 11 => some 'v'
  | 12 => some 'f'
  | 13 => some 'r'
  | 27 => some 'e'
  | _ => none

/-- Whether a character code is an octal digit. -/
def isOctalDigit (c : Nat) : Bool :=
  48 ≤ c && c ≤ 55

/-- Whether a character code is a hexadecimal digit of either case. -/
def isHexDigit (c : Nat) : Bool :=
  48 ≤ c && c ≤ 57 || 65 ≤ c && c ≤ 70 || 97 ≤ c && c ≤ 102

/-- A control character, written with three octal digits when an octal digit comes next. -/
def control (c : Nat) (next : Option Nat) : List Char :=
  match letter? c with
  | some l => ['\\', l]
  | none =>
    if next.any isOctalDigit then
      '\\' :: padLeft 3 '0' (Nat.toDigits 8 c)
    else
      '\\' :: Nat.toDigits 8 c

/-- A character below 128 that is not a control character; only the backslash is changed. -/
def plain (c : Nat) : List Char :=
  if c = 92 then ['\\', '\\'] else [Char.ofNat c]

/-- Escaped 8-bit text. -/
def narrow : Bytes → List Char
  | [] => []
  | c :: rest =>
    let here :=
      if 127 < c.toNat then
        '\\' :: 'x' :: padLeft 2 '0' (hexDigits c.toNat)
      else if c.toNat < 32 then
        if c = 0 ∧ rest = [] then [] else control c.toNat (rest.head?.map UInt8.toNat)
      else
        plain c.toNat
    here ++ narrow rest

/-- Escaped UTF-16 text. -/
def wide : List UInt16 → List Char
  | [] => []
  | c :: rest =>
    let next := rest.head?.map UInt16.toNat
    let here :=
      if 127 < c.toNat then
        if next.any isHexDigit then
          '\\' :: 'x' :: padLeft 4 '0' (hexDigits c.toNat)
        else
          '\\' :: 'x' :: hexDigits c.toNat
      else if c.toNat < 32 then
        if c = 0 ∧ rest = [] then [] else control c.toNat next
      else
        plain c.toNat
    here ++ wide rest

/-- Characters between double quotes. -/
def quoted (cs : List Char) : List Char :=
  '"' :: cs ++ ['"']

/-- 8-bit text as a string literal. -/
def narrowLiteral (bs : Bytes) : List Char :=
  quoted (narrow bs)

/-- UTF-16 text as a wide string literal. -/
def wideLiteral (units : List UInt16) : List Char :=
  'L' :: quoted (wide units)

end PeCoff.Text.Escape
