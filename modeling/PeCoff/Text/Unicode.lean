import PeCoff.Bytes

/-!
# Unicode text

UTF-8 and UTF-16 read leniently: what does not decode becomes a replacement character. In UTF-8
one replacement stands for each longest run of bytes that begins a character and is then cut off;
in UTF-16 one stands for each surrogate without its partner.
-/

namespace PeCoff.Text

/-- The character that stands for what does not decode. -/
def replacement : Char := '\uFFFD'

namespace Utf8

/-- The range of a byte that continues a character. -/
def tail : UInt8 × UInt8 := (0x80, 0xBF)

/-- The ranges of the bytes that must follow a first byte; no range list for a byte that begins
nothing. The first of them is narrower where it keeps out long forms, surrogates and numbers above
the last character. -/
def continuation (b : UInt8) : Option (List (UInt8 × UInt8)) :=
  if b ≤ 0x7F then some []
  else if 0xC2 ≤ b ∧ b ≤ 0xDF then some [tail]
  else if b = 0xE0 then some [(0xA0, 0xBF), tail]
  else if b = 0xED then some [(0x80, 0x9F), tail]
  else if 0xE1 ≤ b ∧ b ≤ 0xEF then some [tail, tail]
  else if b = 0xF0 then some [(0x90, 0xBF), tail, tail]
  else if 0xF1 ≤ b ∧ b ≤ 0xF3 then some [tail, tail, tail]
  else if b = 0xF4 then some [(0x80, 0x8F), tail, tail]
  else none

/-- How many bytes at the front lie in the ranges, one after the other. -/
def matching : List (UInt8 × UInt8) → Bytes → Nat
  | (low, high) :: ranges, b :: bs => if low ≤ b ∧ b ≤ high then matching ranges bs + 1 else 0
  | _, _ => 0

/-- The code point of a first byte and the bytes that continue it. -/
def codePoint (b : UInt8) (rest : Bytes) : Nat :=
  let lead :=
    match rest.length with
    | 0 => b.toNat
    | 1 => b.toNat % 32
    | 2 => b.toNat % 16
    | _ => b.toNat % 8
  rest.foldl (fun n c => n * 64 + c.toNat % 64) lead

/-- The character at the front, and how many bytes after the first belong to it. -/
def step (b : UInt8) (rest : Bytes) : Char × Nat :=
  match continuation b with
  | none => (replacement, 0)
  | some ranges =>
    let n := matching ranges rest
    if n = ranges.length then (Char.ofNat (codePoint b (rest.take n)), n) else (replacement, n)

/-- The characters of a byte string. -/
def decode : Bytes → List Char
  | [] => []
  | b :: rest =>
    let (c, n) := step b rest
    c :: decode (rest.drop n)
termination_by bs => bs.length
decreasing_by simp only [List.length_drop, List.length_cons]; omega

end Utf8

namespace Utf16

/-- The units of a byte string; an odd last byte is dropped. -/
def units : Bytes → List UInt16
  | low :: high :: rest => UInt16.ofNat (low.toNat + 256 * high.toNat) :: units rest
  | _ => []

/-- Whether a unit is the first half of a pair. -/
def isHigh (u : UInt16) : Bool := 0xD800 ≤ u && u ≤ 0xDBFF

/-- Whether a unit is the second half of a pair. -/
def isLow (u : UInt16) : Bool := 0xDC00 ≤ u && u ≤ 0xDFFF

/-- The characters of a sequence of units. -/
def decode : List UInt16 → List Char
  | [] => []
  | [u] => [if isHigh u || isLow u then replacement else Char.ofNat u.toNat]
  | u :: v :: rest =>
    if isHigh u && isLow v then
      Char.ofNat (0x10000 + (u.toNat - 0xD800) * 0x400 + (v.toNat - 0xDC00)) :: decode rest
    else if isHigh u || isLow u then
      replacement :: decode (v :: rest)
    else
      Char.ofNat u.toNat :: decode (v :: rest)

end Utf16

/-- 8-bit text, read as UTF-8. -/
def ofUtf8 (bs : Bytes) : String :=
  String.ofList (Utf8.decode bs)

/-- Wide text, read as UTF-16. -/
def ofUtf16 (units : List UInt16) : String :=
  String.ofList (Utf16.decode units)

end PeCoff.Text
