import Mathlib
import PeCoff.Proofs.Escape
import PeCoff.Proofs.Lines

/-!
# Numbers in columns

The tables of a report show numbers in columns, filled up on the left with zeros or with blanks. A
column keeps its width as long as the number has no more digits (`length_numberIn`), and a number
that is filled up with zeros is read back from it (`valueOf_numberIn`).
-/

namespace PeCoff.Text

variable {base width n : Nat} {fill : Char}

/-- The digits of a number in a base, brought to a width by filling up on the left. -/
def numberIn (base width : Nat) (fill : Char) (n : Nat) : List Char :=
  (Nat.toDigits base n).leftpad width fill

/-- A hexadecimal number stands in a column of zeros. -/
lemma toList_hexOf (width n : Nat) : (hexOf width n).toList = numberIn 16 width '0' n :=
  String.toList_ofList

/-- A decimal number with leading zeros stands in a column of zeros. -/
lemma toList_decimalOf (width n : Nat) : (decimalOf width n).toList = numberIn 10 width '0' n :=
  String.toList_ofList

/-- A decimal number set to the right stands in a column of blanks. -/
lemma toList_alignRight (width n : Nat) :
    (alignRight width (toString n)).toList = numberIn 10 width ' ' n := by
  rw [alignRight, String.toList_ofList, Nat.toString_eq_repr, Nat.toList_repr]
  rfl

/-- Text set to the left is filled up with blanks on the right. -/
lemma toList_alignLeft (width : Nat) (s : String) :
    (alignLeft width s).toList = s.toList.rightpad width ' ' :=
  String.toList_ofList

/-- A column has its width if the number fits in. -/
lemma length_numberIn (hbase : 1 < base) (hwidth : 0 < width) (h : n < base ^ width) :
    (numberIn base width fill n).length = width := by
  have hdigits := (Nat.length_toDigits_le_iff hbase hwidth).mpr h
  rw [numberIn, List.length_leftpad, Nat.max_eq_left hdigits]

/-- A number is read back from a column of zeros. -/
lemma valueOf_numberIn (hbase : 1 < base) (hle : base ≤ 16) (width n : Nat) :
    Escape.valueOf base (numberIn base width '0' n) = n :=
  (Escape.valueOf_padLeft width _).trans (Escape.valueOf_toDigits hbase hle n)

/-- A column holds what fills it up and digits. -/
lemma mem_numberIn {c : Char} (h : c ∈ numberIn base width fill n) :
    c = fill ∨ c ∈ Nat.toDigits base n := by
  rw [numberIn, List.leftpad, List.mem_append] at h
  exact h.imp_left List.eq_of_mem_replicate

/-- A column is not broken by a line feed, unless it is filled up with them. -/
lemma lineFeed_notMem_numberIn (hbase : 1 < base) (hle : base ≤ 16) (hfill : '\n' ≠ fill) :
    '\n' ∉ numberIn base width fill n := by
  intro h
  have hdigit := Escape.isDigit_of_mem_toDigits hbase
    (fun k hk => Escape.isHexDigit_digitChar k (hk.trans_le hle))
    ((mem_numberIn h).resolve_left hfill)
  exact absurd hdigit (by decide)

/-- A number is not broken by a line feed. -/
lemma lineFeed_notMem_toString (n : Nat) : '\n' ∉ (toString n).toList := by
  intro h
  rw [Nat.toString_eq_repr, Nat.toList_repr] at h
  exact absurd (Nat.isDigit_of_mem_toDigits (by decide) (by decide) h) (by decide)

/-- A column of zeros holds decimal digits. -/
lemma isDigit_of_mem_numberIn {c : Char} (h : c ∈ numberIn 10 width '0' n) : c.isDigit := by
  obtain rfl | h := mem_numberIn h
  · rfl
  · exact Nat.isDigit_of_mem_toDigits (by decide) (by decide) h

end PeCoff.Text
