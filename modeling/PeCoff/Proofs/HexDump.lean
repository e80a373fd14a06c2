import Mathlib
import PeCoff.Proofs.Escape
import PeCoff.Proofs.Lines
import PeCoff.Text.HexDump

/-!
# Reading hex dumps

The lines of a hex dump show sixteen bytes each, in columns that stand in the same place on every
line. The main statement is `read_render`: a dump is laid out in this way for data of any length,
the data is read back from the hexadecimal columns, and so no two byte strings have the same dump.
-/

namespace PeCoff

/-- The rows of a byte string hold its bytes, as long as there are enough of them. -/
lemma Bytes.flatten_takeRows {n count : Nat} {bs : Bytes} (h : bs.length ≤ n * count) :
    (takeRows n count bs).flatten = bs := by
  induction count generalizing bs with
  | zero => exact (List.length_eq_zero_iff.mp (Nat.le_zero.mp h)).symm
  | succ count ih =>
    have hrest : (bs.drop n).length ≤ n * count := by
      rw [List.length_drop]
      rw [Nat.mul_succ] at h
      omega
    rw [takeRows, List.flatten_cons, ih hrest, List.take_append_drop]

namespace Text.HexDump

open Escape (isHexDigit digitValue Printable)

/-! ## Reading -/

/-- The bytes of the hexadecimal columns, as long as there are digits and up to a greatest number.
A byte has two digits and a separator. -/
def readCells : (most : Nat) → List Char → Bytes
  | most + 1, high :: low :: _ :: rest =>
    if isHexDigit high.toNat && isHexDigit low.toNat then
      UInt8.ofNat (16 * digitValue high + digitValue low) :: readCells most rest
    else
      []
  | _, _ => []

/-- The bytes of a line. The columns start two places behind the first colon after the title. -/
def readLine (indent : Nat) (l : List Char) : Bytes :=
  readCells 16 (((l.drop indent).dropWhile (· ≠ ':')).drop 2)

/-- The bytes of a dump whose title has a given length. -/
def read (indent : Nat) (text : String) : Bytes :=
  (text.toList.splitOn '\n').flatMap (readLine indent)

/-! ## What a line shows -/

/-- The parts of a line behind its title. -/
structure Parts where
  offset : List Char
  cells : List Char
  blanks : List Char
  chars : List Char

/-- A line with its title. -/
def Parts.line (p : Parts) (title : List Char) : List Char :=
  title ++ p.offset ++ [':', ' '] ++ p.cells ++ p.blanks ++ p.chars

/-- How many bytes stand on line `r`. -/
def countOn (data : Bytes) (r : Nat) : Nat :=
  min 16 (data.length - 16 * r)

/-- The parts of line `r` show the data. -/
structure Parts.Shows (p : Parts) (data : Bytes) (r : Nat) : Prop where
  /-- The offset in lower case, with at least eight digits. -/
  offset : p.offset = (Nat.toDigits 16 (16 * r)).leftpad 8 '0'
  length_cells : p.cells.length = 3 * countOn data r
  /-- Each byte has two digits and a blank, but for the eighth, which has a dash. -/
  cell : ∀ i b, i < 16 → data[16 * r + i]? = some b →
    (p.cells.drop (3 * i)).take 3 =
      (Nat.toDigits 16 b.toNat).leftpad 2 '0' ++ [if i = 7 then '-' else ' ']
  blank : ∀ c ∈ p.blanks, c = ' '
  blanks_of_nil : data = [] → p.blanks = []
  length_chars : p.chars.length = countOn data r
  char : ∀ i b, i < 16 → data[16 * r + i]? = some b →
    p.chars[i]? = some (if 0x20 ≤ b.toNat ∧ b.toNat ≤ 0x7E then Char.ofNat b.toNat else '.')
  /-- With an offset of eight digits the characters start at the same place on every line. -/
  column : data ≠ [] → 16 * r < 16 ^ 8 →
    p.offset.length + 2 + p.cells.length + p.blanks.length = 59

variable {title : List Char} {row data : Bytes} {b : UInt8} {i k most : Nat} {tail : List Char}

/-! ## Cells -/

/-- The cells of bytes that stand on a line from place `k` on. -/
def cellsFrom (k : Nat) (row : Bytes) : List Char :=
  (row.zipIdx k).flatMap fun (b, i) => cell i b

/-- The cell of the first byte comes first. -/
lemma cellsFrom_cons (k : Nat) (b : UInt8) (row : Bytes) :
    cellsFrom k (b :: row) = cell k b ++ cellsFrom (k + 1) row :=
  rfl

/-- A byte has two digits, of its higher and of its lower half. -/
lemma cell_eq (i : Nat) (b : UInt8) : cell i b =
    [Nat.digitChar (b.toNat / 16), Nat.digitChar (b.toNat % 16), if i = 7 then '-' else ' '] := by
  have hlt := b.toNat_lt
  rw [cell, padLeft, hexDigits, Nat.toDigits_eq_if (by decide)]
  by_cases hsmall : b.toNat < 16
  · rw [if_pos hsmall, Nat.div_eq_of_lt hsmall, Nat.mod_eq_of_lt hsmall]
    rfl
  · rw [if_neg hsmall, Nat.toDigits_of_lt_base (by omega)]
    rfl

/-- A cell has two digits and a mark. -/
lemma length_cell (i : Nat) (b : UInt8) : (cell i b).length = 3 := by
  rw [cell_eq]
  rfl

/-- All cells are equally wide. -/
lemma length_cellsFrom (k : Nat) (row : Bytes) : (cellsFrom k row).length = 3 * row.length := by
  induction row generalizing k with
  | nil => rfl
  | cons b row ih =>
    rw [cellsFrom_cons, List.length_append, length_cell, ih, List.length_cons, Nat.mul_succ,
      Nat.add_comm]

/-- The cell of a byte stands at three times its place. -/
lemma take_drop_cellsFrom (h : row[i]? = some b) (k : Nat) :
    ((cellsFrom k row).drop (3 * i)).take 3 = cell (k + i) b := by
  induction row generalizing i k with
  | nil => cases h
  | cons first row ih =>
    rw [cellsFrom_cons]
    cases i with
    | zero =>
      cases h
      rw [Nat.mul_zero, List.drop_zero, List.take_left' (length_cell k b), Nat.add_zero]
    | succ i =>
      rw [Nat.mul_succ, Nat.add_comm (3 * i), ← List.drop_drop,
        List.drop_left' (length_cell k first), ih h, Nat.succ_add_eq_add_succ]

/-- Cells are read back, as many as there are, when no digit follows where more could be read. -/
lemma readCells_cellsFrom (hmost : row.length ≤ most)
    (hends : row.length = most ∨ ∀ d ∈ tail.head?, isHexDigit d.toNat = false) :
    readCells most (cellsFrom k row ++ tail) = row := by
  induction row generalizing most k with
  | nil =>
    have hnil : cellsFrom k [] = [] := rfl
    rw [hnil, List.nil_append]
    unfold readCells
    -- Behind the last cell no further one is read: the row is full or no digit follows.
    split
    · next most high low _ rest =>
      obtain hfull | hdigit := hends
      · cases hfull
      · rw [hdigit high rfl, Bool.false_and, if_neg Bool.false_ne_true]
    · rfl
  | cons b row ih =>
    have hb := b.toNat_lt
    obtain ⟨most, rfl⟩ := Nat.exists_eq_add_one_of_ne_zero (Nat.ne_zero_of_lt hmost)
    have hrest := ih (k := k + 1) (Nat.le_of_succ_le_succ hmost) (hends.imp_left Nat.succ.inj)
    have hhigh : b.toNat / 16 < 16 := by omega
    have hlow : b.toNat % 16 < 16 := Nat.mod_lt _ (by decide)
    have hvalue : UInt8.ofNat (16 * (b.toNat / 16) + b.toNat % 16) = b := by
      rw [Nat.div_add_mod, UInt8.ofNat_toNat]
    rw [cellsFrom_cons, cell_eq, List.append_assoc, List.cons_append, List.cons_append,
      List.cons_append, List.nil_append, readCells, Escape.isHexDigit_digitChar _ hhigh,
      Escape.isHexDigit_digitChar _ hlow, Escape.digitValue_digitChar _ hhigh,
      Escape.digitValue_digitChar _ hlow, hvalue, hrest]
    rfl

/-! ## Lines -/

/-- The parts of a line. -/
def partsOf (r : Nat) (row : Bytes) : Parts where
  offset := padLeft 8 '0' (hexDigits (16 * r))
  cells := cellsFrom 0 row
  blanks := List.replicate (3 * (16 - row.length) + 1) ' '
  chars := row.map printable

/-- A line of a dump has the parts of its row. -/
lemma line_eq (title : List Char) (r : Nat) (row : Bytes) :
    line title r row = (partsOf r row).line title := by
  simp only [line, leading, columns, Parts.line, partsOf, cellsFrom, perLine, List.append_assoc]

/-- The line of no data. -/
def partsOfNil : Parts :=
  ⟨padLeft 8 '0' (hexDigits 0), [], [], []⟩

/-- The line of no bytes has no cells. -/
lemma leading_zero (title : List Char) : leading title 0 = partsOfNil.line title := by
  simp only [leading, Parts.line, partsOfNil, List.append_nil]

/-- An offset is printed in hexadecimal digits. -/
lemma isHexDigit_of_mem_offset {n : Nat} {d : Char} (h : d ∈ padLeft 8 '0' (hexDigits n)) :
    isHexDigit d.toNat := by
  obtain rfl | h := Escape.mem_padLeft h
  · rfl
  · exact Escape.isDigit_of_mem_toDigits (by decide) Escape.isHexDigit_digitChar h

/-- What is read from a line is read from its columns. -/
lemma readLine_line {p : Parts} (title : List Char) (h : ∀ d ∈ p.offset, isHexDigit d.toNat) :
    readLine title.length (p.line title) = readCells 16 (p.cells ++ (p.blanks ++ p.chars)) := by
  have hcolon : ∀ d ∈ p.offset, decide (d ≠ ':') := fun d hd =>
    decide_eq_true (Escape.ne_of_isDigit (h d hd) rfl)
  rw [readLine, Parts.line]
  simp only [List.append_assoc]
  rw [List.drop_left, List.dropWhile_append_of_pos hcolon]
  rfl

/-- A line with up to sixteen bytes is read back. -/
lemma readLine_partsOf (title : List Char) (r : Nat) (hrow : row.length ≤ 16) :
    readLine title.length ((partsOf r row).line title) = row := by
  rw [readLine_line title fun _ => isHexDigit_of_mem_offset]
  refine readCells_cellsFrom hrow (.inr fun d hd => ?_)
  rw [partsOf, List.replicate_succ, List.cons_append] at hd
  cases hd
  rfl

/-- From the line of no bytes none are read. -/
lemma readLine_partsOfNil (title : List Char) :
    readLine title.length (partsOfNil.line title) = [] := by
  rw [readLine_line title fun _ => isHexDigit_of_mem_offset]
  rfl

/-! ## What is shown -/

/-- The parts of the lines of a dump. -/
def partsFor (data : Bytes) : List Parts :=
  if data = [] then [partsOfNil] else (data.rows 16).zipIdx.map fun (row, r) => partsOf r row

/-- The lines of a dump have the parts of its rows. -/
lemma lines_eq (title : List Char) (data : Bytes) :
    lines title data = (partsFor data).map fun p => p.line title := by
  rw [lines, partsFor]
  split
  · rw [leading_zero]
    rfl
  · rw [List.map_map]
    exact List.map_congr_left fun x _ => line_eq title x.2 x.1

/-- There is a line for each sixteen bytes, and one if there are none. -/
lemma length_partsFor (data : Bytes) :
    (partsFor data).length = max 1 ((data.length + 15) / 16) := by
  rw [partsFor]
  split
  · next hnil =>
    rw [hnil]
    rfl
  · next hne =>
    have hpos := List.length_pos_iff.mpr hne
    rw [List.length_map, List.length_zipIdx, Bytes.rows, Bytes.length_takeRows]
    omega

/-- A line shows no bytes, when there are none, or those of a row that is not empty. -/
lemma eq_of_getElem?_partsFor {p : Parts} {r : Nat} (h : (partsFor data)[r]? = some p) :
    (data = [] ∧ r = 0 ∧ p = partsOfNil) ∨
      (16 * r < data.length ∧ p = partsOf r ((data.drop (16 * r)).take 16)) := by
  rw [partsFor] at h
  split at h
  · next hnil =>
    obtain ⟨hr, hp⟩ := List.getElem?_eq_some_iff.mp h
    obtain rfl := Nat.lt_one_iff.mp hr
    exact .inl ⟨hnil, rfl, hp.symm⟩
  · rw [List.getElem?_map, Option.map_eq_some_iff] at h
    obtain ⟨⟨row, _⟩, hrow, rfl⟩ := h
    obtain ⟨hr, hrow⟩ := List.getElem?_eq_some_iff.mp hrow
    rw [List.getElem_zipIdx, Nat.zero_add, Prod.mk.injEq] at hrow
    obtain ⟨rfl, rfl⟩ := hrow
    have hlt : r < (data.length + 16 - 1) / 16 := by
      rwa [List.length_zipIdx, Bytes.rows, Bytes.length_takeRows] at hr
    refine .inr ⟨by omega, ?_⟩
    simp only [Bytes.rows, Bytes.getElem_takeRows]

/-- The line of no bytes shows none. -/
lemma shows_partsOfNil : partsOfNil.Shows [] 0 where
  offset := rfl
  length_cells := rfl
  cell _ _ _ h := by cases h
  blank := nofun
  blanks_of_nil _ := rfl
  length_chars := rfl
  char _ _ _ h := by cases h
  column h := absurd rfl h

/-- The line of a row shows the bytes of the row. -/
lemma shows_partsOf {r : Nat} (h : 16 * r < data.length) :
    (partsOf r ((data.drop (16 * r)).take 16)).Shows data r := by
  have hcount : ((data.drop (16 * r)).take 16).length = countOn data r := by
    rw [List.length_take, List.length_drop, countOn]
  have hbyte {i : Nat} {b : UInt8} (hi : i < 16) (hb : data[16 * r + i]? = some b) :
      ((data.drop (16 * r)).take 16)[i]? = some b := by
    rw [List.getElem?_take_of_lt hi, List.getElem?_drop, hb]
  refine ⟨rfl, ?_, fun i b hi hb => ?_, fun _ => List.eq_of_mem_replicate, ?_, ?_,
    fun i b hi hb => ?_, fun _ hr => ?_⟩
  · rw [partsOf, length_cellsFrom, hcount]
  · rw [partsOf, take_drop_cellsFrom (hbyte hi hb), Nat.zero_add]
    rfl
  · rintro rfl
    cases h
  · rw [partsOf, List.length_map, hcount]
  · have hchar : printable b =
        if 0x20 ≤ b.toNat ∧ b.toNat ≤ 0x7E then Char.ofNat b.toNat else '.' :=
      if_congr (and_congr_right' Nat.lt_succ_iff) rfl rfl
    rw [partsOf, List.getElem?_map, hbyte hi hb, Option.map_some, hchar]
  · have hoffset : (padLeft 8 '0' (hexDigits (16 * r))).length = 8 :=
      Escape.length_padLeft ((Nat.length_toDigits_le_iff (by decide) (by decide)).mpr hr)
    have hle : countOn data r ≤ 16 := Nat.min_le_left _ _
    simp only [partsOf, length_cellsFrom, hcount, List.length_replicate, hoffset]
    omega

/-! ## Line breaks -/

/-- Whatever is printed for a byte is printable. -/
lemma printable_printable (b : UInt8) :
    0x20 ≤ (printable b).toNat ∧ (printable b).toNat ≤ 0x7F := by
  rw [printable]
  split
  · next h =>
    have hvalid : b.toNat.isValidChar := .inl (by omega)
    rw [Char.toNat_ofNat, if_pos hvalid]
    omega
  · decide

/-- Cells are printable. -/
lemma printable_cellsFrom (k : Nat) (row : Bytes) : Printable (cellsFrom k row) := by
  intro d hd
  obtain ⟨⟨b, i⟩, -, hd⟩ := List.mem_flatMap.mp hd
  have hdigits (n : Nat) : Printable (padLeft 2 '0' (hexDigits n)) := by
    have h := Escape.printable_hexOf 2 n
    rwa [hexOf, String.toList_ofList] at h
  have hseparator : Printable [if i = 7 then '-' else ' '] := by
    split <;> simp [Printable]
  exact Escape.printable_append.mpr ⟨hdigits b.toNat, hseparator⟩ d hd

/-- What stands behind the title on a line is printable. -/
lemma printable_of_mem_partsFor {p : Parts} (h : p ∈ partsFor data) :
    Printable (p.offset ++ p.cells ++ p.blanks ++ p.chars) := by
  have hoffset (n : Nat) : Printable (padLeft 8 '0' (hexDigits n)) :=
    Escape.printable_of_isHexDigit fun _ => isHexDigit_of_mem_offset
  have hblanks (n : Nat) : Printable (List.replicate n ' ') := by
    intro d hd
    rw [List.eq_of_mem_replicate hd]
    decide
  have hchars (row : Bytes) : Printable (row.map printable) := by
    intro d hd
    obtain ⟨b, -, rfl⟩ := List.mem_map.mp hd
    exact printable_printable b
  obtain ⟨r, hr⟩ := List.getElem?_of_mem h
  simp only [Escape.printable_append]
  obtain ⟨-, -, rfl⟩ | ⟨-, rfl⟩ := eq_of_getElem?_partsFor hr
  · exact ⟨⟨⟨hoffset 0, nofun⟩, nofun⟩, nofun⟩
  · exact ⟨⟨⟨hoffset _, printable_cellsFrom 0 _⟩, hblanks _⟩, hchars _⟩

/-- No line is broken, unless the title is. -/
lemma lineFeed_notMem_line {p : Parts} (htitle : '\n' ∉ title) (h : p ∈ partsFor data) :
    '\n' ∉ p.line title := by
  have hprintable := printable_of_mem_partsFor h
  have hpart {cs : List Char} (hcs : Printable cs) : '\n' ∉ cs :=
    fun hmem => absurd (hcs _ hmem).1 (by decide)
  simp only [Escape.printable_append] at hprintable
  obtain ⟨⟨⟨hoffset, hcells⟩, hblanks⟩, hchars⟩ := hprintable
  have hcolon : '\n' ∉ [':', ' '] := by decide
  simp only [Parts.line, List.mem_append, htitle, hpart hoffset, hcolon, hpart hcells,
    hpart hblanks, hpart hchars, or_self, not_false_eq_true]

/-! ## Dumps -/

/-- A dump is its lines, each with a line feed behind it. -/
lemma toList_render (title : String) (data : Bytes) :
    (render title (some data)).toList =
      ((partsFor data).map fun p => p.line title.toList).flatMap (· ++ ['\n']) := by
  rw [render, String.toList_ofList, lines_eq]

/-- The lines of a dump, when the title does not break them. -/
lemma splitOn_render {title : String} (htitle : '\n' ∉ title.toList) (data : Bytes) :
    (render title (some data)).toList.splitOn '\n' =
      ((partsFor data).map fun p => p.line title.toList) ++ [[]] := by
  rw [toList_render]
  refine splitOn_flatMap_append fun l hl => ?_
  obtain ⟨p, hp, rfl⟩ := List.mem_map.mp hl
  exact lineFeed_notMem_line htitle hp

/-- The lines of a dump read back as the data. -/
lemma flatMap_readLine (title : List Char) (data : Bytes) :
    (partsFor data).flatMap (fun p => readLine title.length (p.line title)) = data := by
  rw [partsFor]
  split
  · next hnil => rw [List.flatMap_singleton, readLine_partsOfNil, hnil]
  · have hrow : ∀ x ∈ (data.rows 16).zipIdx,
        readLine title.length ((partsOf x.2 x.1).line title) = x.1 := by
      intro x hx
      obtain ⟨r, hr⟩ := List.getElem?_of_mem (List.fst_mem_of_mem_zipIdx hx)
      obtain ⟨hlt, hrow⟩ := List.getElem?_eq_some_iff.mp hr
      refine readLine_partsOf title x.2 ?_
      simp only [← hrow, Bytes.rows, Bytes.getElem_takeRows, List.length_take]
      exact Nat.min_le_left _ _
    rw [List.flatMap_map, List.flatMap_congr hrow, List.flatMap_def, List.zipIdx_map_fst]
    exact Bytes.flatten_takeRows (by omega)

/-- From a dump the bytes are read back. -/
lemma read_eq {title : String} (htitle : '\n' ∉ title.toList) (data : Bytes) :
    read title.length (render title (some data)) = data := by
  have hnil : readLine title.length [] = [] := by rw [readLine, List.drop_nil]; rfl
  rw [read, splitOn_render htitle, List.flatMap_append, List.flatMap_singleton, hnil,
    List.append_nil, List.flatMap_map, ← String.length_toList, flatMap_readLine]

/-- A dump has a line for each sixteen bytes, and one line if there are none. Behind the title,
which does not break lines, stand the offset, the bytes in hexadecimal and the same bytes as
characters, in columns that do not move from line to line. The data is read back from the
hexadecimal columns, so that under one title different byte strings have different dumps. -/
theorem read_render (title : String) (htitle : '\n' ∉ title.toList) :
    (∀ data : Bytes, ∃ parts : List Parts,
      (render title (some data)).toList.splitOn '\n' =
        (parts.map fun p => p.line title.toList) ++ [[]] ∧
      parts.length = max 1 ((data.length + 15) / 16) ∧
      (∀ (r : Nat) (p : Parts), parts[r]? = some p → p.Shows data r) ∧
      read title.length (render title (some data)) = data) ∧
    Function.Injective fun data : Bytes => render title (some data) := by
  constructor
  · intro data
    refine ⟨partsFor data, splitOn_render htitle data, length_partsFor data, fun r p hp => ?_,
      read_eq htitle data⟩
    obtain ⟨rfl, rfl, rfl⟩ | ⟨hlt, rfl⟩ := eq_of_getElem?_partsFor hp
    · exact shows_partsOfNil
    · exact shows_partsOf hlt
  · intro data others heq
    rw [← read_eq htitle data, ← read_eq htitle others]
    exact congrArg (read title.length) heq

/-- A dump of seventeen bytes under a title with a colon has two lines, and the second shows one
byte. -/
theorem read_render_colon :
    '\n' ∉ "a: b".toList ∧ ∃ first second : Parts,
      (render "a: b" (some (List.replicate 17 0x5C))).toList.splitOn '\n' =
        [first.line "a: b".toList, second.line "a: b".toList, []] ∧
      second.Shows (List.replicate 17 0x5C) 1 ∧
      read 4 (render "a: b" (some (List.replicate 17 0x5C))) = List.replicate 17 0x5C := by
  have htitle : '\n' ∉ "a: b".toList := by decide
  obtain ⟨hdump, -⟩ := read_render "a: b" htitle
  obtain ⟨parts, hlines, hlength, hshows, hread⟩ := hdump (List.replicate 17 0x5C)
  obtain ⟨first, second, rfl⟩ := List.length_eq_two.mp hlength
  exact ⟨htitle, first, second, hlines, hshows 1 second rfl, hread⟩

end Text.HexDump

end PeCoff
