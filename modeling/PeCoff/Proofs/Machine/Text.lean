import Mathlib
import PeCoff.Proofs.Machine.Step
import PeCoff.Text.Escape
import PeCoff.Text.HexDump

/-!
# Text on a machine

A machine finds the letter of a control character in a table, counts the characters of a text by a
word, and computes the offset and the filling of each line of a hex dump. The main statements are
`narrow_eq`, `wide_eq` and `hexDump_eq`: none of it faults on a text that fits into a memory.
-/

namespace PeCoff.Machine

open Text

/-! ## Escapes -/

/-- The letters of the control characters; a dot stands for none. -/
def escapes : List Char :=
  ".......abtnvfr.............e....".toList

/-- A control character and what comes after it. -/
def control (c : Nat) (next : Option Nat) : Step (List Char) := do
  let letter ← index escapes c
  if letter ≠ '.' then
    return ['\\', letter]
  else if next.any Escape.isOctalDigit then
    return '\\' :: padLeft 3 '0' (Nat.toDigits 8 c)
  else
    return '\\' :: Nat.toDigits 8 c

/-- The table of escapes has a dot where there is no letter. -/
lemma index_escapes_eq {c : Nat} (h : c < 32) :
    index escapes c = .ok ((Escape.letter? c).getD '.') := by
  revert c
  decide

/-- No control character is escaped with a dot. -/
lemma letter?_ne_some {c : Nat} (h : c < 32) : Escape.letter? c ≠ some '.' := by
  revert c
  decide

/-- A control character is escaped without a fault. -/
lemma control_eq {c : Nat} (h : c < 32) (next : Option Nat) :
    control c next = .ok (Escape.control c next) := by
  have hdot := letter?_ne_some h
  rw [control, index_escapes_eq h, Escape.control]
  cases hletter : Escape.letter? c with
  | none =>
    simp only [ok_bind, Option.getD_none, ne_eq, not_true_eq_false, if_false]
    split <;> rfl
  | some letter =>
    have hne : letter ≠ '.' := fun heq => hdot (hletter.trans (congrArg some heq))
    simp only [ok_bind, Option.getD_some, if_pos hne, pure_eq]

section Pieces

variable {α : Type}

/-- A text, of which each piece is made from a character and the one after it. -/
def pieces (piece : α → Option α → Step (List Char)) (xs : List α) : Step (List Char) := do
  let found ← xs.zipIdx.mapM fun (x, i) => do
    let next ← add 64 i 1
    piece x xs[next]?
  return found.flatten

/-- The pieces of a text, one after the other. -/
def inOrder (piece : α → Option α → List Char) : List α → List Char
  | [] => []
  | x :: rest => piece x rest.head? ++ inOrder piece rest

/-- Going through a table by place is going through it in order. -/
lemma flatten_map_zipIdx (piece : α → Option α → List Char) (xs : List α) :
    (xs.zipIdx.map fun (x, i) => piece x xs[i + 1]?).flatten = inOrder piece xs := by
  induction xs with
  | nil => rfl
  | cons x rest ih =>
    rw [List.zipIdx_cons', List.map_cons, List.flatten_cons, List.map_map, inOrder, ← ih,
      List.head?_eq_getElem?]
    simp only [List.getElem?_cons_succ]
    rfl

/-- A text is escaped without a fault when each of its characters is. -/
lemma pieces_eq {piece : α → Option α → Step (List Char)} {piece' : α → Option α → List Char}
    {xs : List α} (hxs : xs.length < 2 ^ 64) (h : ∀ x next, piece x next = .ok (piece' x next)) :
    pieces piece xs = .ok (inOrder piece' xs) := by
  have hpieces : ∀ p ∈ xs.zipIdx, (do
      let next ← add 64 p.2 1
      piece p.1 xs[next]?) = .ok (piece' p.1 xs[p.2 + 1]?) := by
    intro p hp
    have hplace : p.2 < xs.length := List.snd_lt_of_mem_zipIdx hp
    rw [add_eq (by omega)]
    simp only [ok_bind, h]
  rw [pieces, mapM_eq hpieces, ← flatten_map_zipIdx]
  rfl

/-- A text that is written character by character is its pieces in order. -/
lemma inOrder_eq {piece : α → Option α → List Char} {text : List α → List Char}
    (hnil : text [] = []) (hcons : ∀ x rest, text (x :: rest) = piece x rest.head? ++ text rest)
    (xs : List α) : inOrder piece xs = text xs := by
  induction xs with
  | nil => exact hnil.symm
  | cons x rest ih => rw [inOrder, ih, hcons]

end Pieces

/-- A byte and the one after it. -/
def narrowPiece (b : UInt8) (next : Option UInt8) : Step (List Char) :=
  if 127 < b.toNat then
    return '\\' :: 'x' :: padLeft 2 '0' (hexDigits b.toNat)
  else if b.toNat < 32 then
    if b = 0 ∧ next = none then return [] else control b.toNat (next.map UInt8.toNat)
  else
    return Escape.plain b.toNat

/-- What a byte becomes. -/
def shownByte (b : UInt8) (next : Option UInt8) : List Char :=
  if 127 < b.toNat then
    '\\' :: 'x' :: padLeft 2 '0' (hexDigits b.toNat)
  else if b.toNat < 32 then
    if b = 0 ∧ next = none then [] else Escape.control b.toNat (next.map UInt8.toNat)
  else
    Escape.plain b.toNat

/-- 8-bit text with escapes. -/
def narrow (bs : Bytes) : Step (List Char) :=
  pieces narrowPiece bs

/-- A unit and the one after it. -/
def widePiece (u : UInt16) (next : Option UInt16) : Step (List Char) :=
  if 127 < u.toNat then
    if (next.map UInt16.toNat).any Escape.isHexDigit then
      return '\\' :: 'x' :: padLeft 4 '0' (hexDigits u.toNat)
    else
      return '\\' :: 'x' :: hexDigits u.toNat
  else if u.toNat < 32 then
    if u = 0 ∧ next = none then return [] else control u.toNat (next.map UInt16.toNat)
  else
    return Escape.plain u.toNat

/-- What a unit becomes. -/
def shownUnit (u : UInt16) (next : Option UInt16) : List Char :=
  if 127 < u.toNat then
    if (next.map UInt16.toNat).any Escape.isHexDigit then
      '\\' :: 'x' :: padLeft 4 '0' (hexDigits u.toNat)
    else
      '\\' :: 'x' :: hexDigits u.toNat
  else if u.toNat < 32 then
    if u = 0 ∧ next = none then [] else Escape.control u.toNat (next.map UInt16.toNat)
  else
    Escape.plain u.toNat

/-- UTF-16 text with escapes. -/
def wide (us : List UInt16) : Step (List Char) :=
  pieces widePiece us

/-- A byte is escaped without a fault. -/
lemma narrowPiece_eq (b : UInt8) (next : Option UInt8) :
    narrowPiece b next = .ok (shownByte b next) := by
  rw [narrowPiece, shownByte]
  split
  · rfl
  · split
    · next hcontrol =>
      split
      · rfl
      · exact control_eq hcontrol _
    · rfl

/-- A unit is escaped without a fault. -/
lemma widePiece_eq (u : UInt16) (next : Option UInt16) :
    widePiece u next = .ok (shownUnit u next) := by
  rw [widePiece, shownUnit]
  split
  · split <;> rfl
  · split
    · next hcontrol =>
      split
      · rfl
      · exact control_eq hcontrol _
    · rfl

/-- Escaping a byte looks at no more than the byte behind it. -/
lemma narrow_cons (b : UInt8) (rest : Bytes) :
    Escape.narrow (b :: rest) = shownByte b rest.head? ++ Escape.narrow rest := by
  simp only [Escape.narrow, shownByte, List.head?_eq_none_iff]

/-- Escaping a unit looks at no more than the unit behind it. -/
lemma wide_cons (u : UInt16) (rest : List UInt16) :
    Escape.wide (u :: rest) = shownUnit u rest.head? ++ Escape.wide rest := by
  simp only [Escape.wide, shownUnit, List.head?_eq_none_iff]

/-- A byte string is escaped without a fault. -/
theorem narrow_eq {bs : Bytes} (h : bs.length < 2 ^ 64) : narrow bs = .ok (Escape.narrow bs) := by
  rw [narrow, pieces_eq h narrowPiece_eq, inOrder_eq rfl narrow_cons]

/-- A text of units is escaped without a fault. -/
theorem wide_eq {us : List UInt16} (h : us.length < 2 ^ 64) : wide us = .ok (Escape.wide us) := by
  rw [wide, pieces_eq h widePiece_eq, inOrder_eq rfl wide_cons]

/-! ## Hex dumps -/

/-- How many blanks fill up a line that is not full. -/
def filling (length : Nat) : Step Nat := do
  if length < HexDump.perLine then mul 64 3 (← sub HexDump.perLine length) else return 0

/-- A line of a hex dump. -/
def dumpLine (title : List Char) (row : Bytes) (number : Nat) : Step (List Char) := do
  let offset ← mul 64 number HexDump.perLine
  let width ← filling row.length
  let cells := row.zipIdx.flatMap fun (b, i) => HexDump.cell i b
  return HexDump.leading title offset ++ (cells ++ List.replicate (width + 1) ' '
    ++ row.map HexDump.printable)

/-- A hex dump, or a line that says that there is no data. -/
def hexDump (title : String) : Option Bytes → Step String
  | none => return String.ofList (HexDump.leading title.toList 0) ++ "NULL\n"
  | some bytes => do
    let found ←
      if bytes = [] then pure [HexDump.leading title.toList 0]
      else (bytes.rows HexDump.perLine).zipIdx.mapM fun (row, i) => dumpLine title.toList row i
    return String.ofList (found.flatMap fun l => l ++ ['\n'])

/-- A row is filled up without an underflow. -/
lemma filling_eq (length : Nat) :
    filling length = .ok (3 * (HexDump.perLine - length)) := by
  rw [filling]
  by_cases hlength : length < HexDump.perLine
  · rw [if_pos hlength, sub_eq (Nat.le_of_lt hlength)]
    exact mul_eq (by simp only [HexDump.perLine]; omega)
  · rw [if_neg hlength, Nat.sub_eq_zero_of_le (Nat.not_lt.mp hlength)]
    rfl

/-- A line of a dump is printed without a fault, since its offset fits. -/
lemma dumpLine_eq (title : List Char) (row : Bytes) {number : Nat}
    (h : number * HexDump.perLine < 2 ^ 64) :
    dumpLine title row number = .ok (HexDump.line title number row) := by
  rw [dumpLine, mul_eq h, filling_eq, Nat.mul_comm number]
  rfl

/-- A dump is printed without a fault. -/
theorem hexDump_eq (title : String) {data : Option Bytes}
    (h : ∀ bytes, data = some bytes → bytes.length < 2 ^ 64) :
    hexDump title data = .ok (HexDump.render title data) := by
  cases data with
  | none => rfl
  | some bytes =>
    have hlength := h bytes rfl
    have hrows : ∀ p ∈ (bytes.rows HexDump.perLine).zipIdx,
        dumpLine title.toList p.1 p.2 = .ok (HexDump.line title.toList p.2 p.1) := by
      intro p hp
      -- The offset of a line is at most that of the last byte.
      have hnumber : p.2 < (bytes.length + 16 - 1) / 16 := by
        simpa [Bytes.rows, HexDump.perLine] using List.snd_lt_of_mem_zipIdx hp
      exact dumpLine_eq _ _ (by simp only [HexDump.perLine]; omega)
    rw [hexDump, HexDump.render, HexDump.lines]
    by_cases hempty : bytes = []
    · simp only [if_pos hempty]
      rfl
    · simp only [if_neg hempty]
      rw [mapM_eq hrows]
      rfl

end PeCoff.Machine
