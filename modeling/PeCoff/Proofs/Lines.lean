import Mathlib
import PeCoff.Report.Format

/-!
# Rows and marks

A text in lines is a list of rows, each followed by a mark. The main statement is
`splitOn_flatMap_append`: cut at its marks, such a list gives the rows back, unless a row holds a
mark of its own. The lines of a report are such rows, each followed by a line feed (`toList_lines`).
-/

namespace PeCoff

variable {α : Type} [DecidableEq α] {a : α} {rows : List (List α)}

/-- There is one piece more than there are marks. -/
lemma length_splitOn (a : α) (xs : List α) : (xs.splitOn a).length = xs.count a + 1 := by
  induction xs with
  | nil => rw [List.splitOn_nil, List.count_nil, List.length_singleton]
  | cons x xs ih =>
    rw [List.splitOn_cons_eq_if_modifyHead, List.count_cons]
    split
    · rw [List.length_cons, ih]
    · rw [List.length_modifyHead, ih, Nat.add_zero]

/-- Rows without a mark are found again when each is followed by one. -/
lemma splitOn_flatMap_append (h : ∀ row ∈ rows, a ∉ row) :
    (rows.flatMap (· ++ [a])).splitOn a = rows ++ [[]] := by
  induction rows with
  | nil => rw [List.flatMap_nil, List.splitOn_nil, List.nil_append]
  | cons row rows ih =>
    rw [List.forall_mem_cons] at h
    rw [List.flatMap_cons, List.append_assoc, List.singleton_append,
      List.splitOn_append_cons_self_of_not_mem h.1, ih h.2, List.cons_append]

/-- Rows that are each followed by a mark hold as many marks as there are rows exactly if no row
holds one of its own. -/
lemma count_flatMap_append_eq_iff :
    (rows.flatMap (· ++ [a])).count a = rows.length ↔ ∀ row ∈ rows, a ∉ row := by
  have hcount : (rows.flatMap (· ++ [a])).count a =
      (rows.map (List.count a)).sum + rows.length := by
    rw [List.count_flatMap]
    induction rows with
    | nil => rfl
    | cons row rows ih =>
      simp only [List.map_cons, List.sum_cons, ih, Function.comp_apply, List.count_append,
        List.count_singleton_self, List.length_cons]
      omega
  rw [hcount, Nat.add_eq_right, List.sum_eq_zero_iff, List.forall_mem_map]
  simp only [List.count_eq_zero]

/-- The rows of a table, when its text starts with some rows of a title and ends with an empty
one. -/
def tableBody (titles : Nat) (a : α) (text : List α) : List (List α) :=
  ((text.splitOn a).drop titles).dropLast.dropLast

/-- The rows of a table are found again if no row and no title holds a mark. -/
lemma tableBody_flatMap {title : List (List α)} {titles : Nat} (hlength : title.length = titles)
    (htitle : ∀ row ∈ title, a ∉ row) (hrows : ∀ row ∈ rows, a ∉ row) :
    tableBody titles a ((title ++ rows ++ [[]]).flatMap (· ++ [a])) = rows := by
  have hmarks : ∀ row ∈ title ++ rows ++ [[]], a ∉ row := by
    simp only [List.forall_mem_append, List.forall_mem_singleton]
    exact ⟨⟨htitle, hrows⟩, nofun⟩
  rw [tableBody, splitOn_flatMap_append hmarks, List.append_assoc, List.append_assoc,
    List.drop_left' hlength, ← List.append_assoc, List.dropLast_concat, List.dropLast_concat]

namespace Report

/-- A line of a report ends in a line feed. -/
lemma toList_line (s : String) : (line s).toList = s.toList ++ ['\n'] := by
  rw [line, String.toList_append, String.toList_ofList]

/-- The lines of a report are rows, each followed by a line feed. -/
lemma toList_lines (ls : List String) :
    (lines ls).toList = (ls.map String.toList).flatMap (· ++ ['\n']) := by
  rw [lines, String.toList_join, List.flatMap_map, List.flatMap_map]
  exact List.flatMap_congr fun s _ => toList_line s

end Report

end PeCoff
