import Mathlib
import PeCoff.Proofs.Columns
import PeCoff.Proofs.FileStrings
import PeCoff.Proofs.Layout
import PeCoff.Proofs.Machine.Payload

/-!
# Names in linked `.stab` sections

A linker puts the entries of compilation units one after the other, and their strings too. The
header in front of the entries of a unit says how long its strings are, and the names of the unit
are looked up in them. The main statement is `stabs_flatMap`: every entry is shown with the name
that it has in the strings of its own unit. The lines are given by their characters, and the names
are read back from them.
-/

namespace PeCoff.DebugInfo

/-- The entries of a compilation unit, with the strings in which all of them have their names. -/
structure CompilationUnit where
  header : Stab
  entries : List Stab
  strings : Bytes
  isUnitHeader_header : header.isUnitHeader
  not_isUnitHeader : ∀ s ∈ entries, ¬ s.isUnitHeader
  /-- The header says how long the strings are. -/
  value_header : header.value.toNat = strings.length
  /-- The last string is terminated. -/
  getLast?_strings : strings.getLast? = some 0
  nameOffset_lt : ∀ s ∈ header :: entries, s.nameOffset.toNat < strings.length

namespace CompilationUnit

/-- The entries with the header in front. -/
def stabs (u : CompilationUnit) : List Stab :=
  u.header :: u.entries

/-- The name of an entry in the strings of the unit. -/
def nameOf (u : CompilationUnit) (s : Stab) : String :=
  Text.ofUtf8 (Bytes.untilZero (u.strings.drop s.nameOffset.toNat))

/-- The entries with their names. -/
def named (u : CompilationUnit) : List (Stab × String) :=
  u.stabs.map fun s => (s, u.nameOf s)

end CompilationUnit

/-- The names of the units go with their entries. -/
lemma CompilationUnit.zip_flatMap (units : List CompilationUnit) :
    (units.flatMap stabs).zip (units.flatMap fun u => u.stabs.map u.nameOf) =
      units.flatMap named := by
  induction units with
  | nil => rfl
  | cons u units ih =>
    rw [List.flatMap_cons, List.flatMap_cons, List.flatMap_cons,
      List.zip_append (List.length_map _).symm, ih, named, List.map_prod_left_eq_zip]

/-! ## Looking names up -/

namespace CompilationUnit

variable {s : Stab}

/-- An entry has a terminated name in the strings of its unit. -/
lemma zero_mem_drop (u : CompilationUnit) (hs : s ∈ u.stabs) :
    0 ∈ u.strings.drop s.nameOffset.toNat := by
  have hlt := u.nameOffset_lt s hs
  apply List.mem_of_getLast?
  rw [List.getLast?_drop, if_neg (Nat.not_le_of_lt hlt), u.getLast?_strings]

/-- An entry has its own name at its place, whatever strings are before and behind those of the
unit. -/
lemma nameAt_eq (u : CompilationUnit) (hs : s ∈ u.stabs) (front rest : Bytes) :
    Stab.nameAt (.ofList (front ++ (u.strings ++ rest))) (front.length + s.nameOffset.toNat) =
      u.nameOf s := by
  have hle : s.nameOffset.toNat ≤ u.strings.length := Nat.le_of_lt (u.nameOffset_lt s hs)
  rw [Stab.nameAt, Image.untilZero_ofList, ← List.drop_drop, List.drop_left,
    List.drop_append_of_le_length hle,
    Bytes.untilZero_append (u.zero_mem_drop hs), nameOf]

end CompilationUnit

namespace Stab

/-- Behind a header the base stays where it is. -/
lemma names_append {entries : List Stab} (h : ∀ s ∈ entries, ¬ s.isUnitHeader) (strings : Image)
    (base next : Nat) (rest : List Stab) :
    names strings base next (entries ++ rest) =
      entries.map (fun s => nameAt strings (base + s.nameOffset.toNat))
        ++ names strings base next rest := by
  induction entries with
  | nil => rfl
  | cons s entries ih =>
    rw [List.forall_mem_cons] at h
    rw [List.cons_append, names, if_neg h.1]
    exact congrArg _ (ih h.2)

/-- The base of the units that follow is the length of the strings before them. -/
lemma names_flatMap (units : List CompilationUnit) (front : Bytes) (base : Nat) :
    names (.ofList (front ++ units.flatMap CompilationUnit.strings)) base front.length
        (units.flatMap CompilationUnit.stabs) =
      units.flatMap fun u => u.stabs.map u.nameOf := by
  induction units generalizing front base with
  | nil => rfl
  | cons u units ih =>
    have hrest := ih (front ++ u.strings) front.length
    rw [List.length_append, List.append_assoc] at hrest
    have hname {s : Stab} (hs : s ∈ u.stabs) :=
      u.nameAt_eq hs front (units.flatMap CompilationUnit.strings)
    have hentries : u.entries.map (fun s => nameAt (.ofList (front ++
        (u.strings ++ units.flatMap CompilationUnit.strings))) (front.length + s.nameOffset.toNat)) =
        u.entries.map u.nameOf :=
      List.map_congr_left fun s hs => hname (List.mem_cons_of_mem _ hs)
    rw [List.flatMap_cons, List.flatMap_cons, List.flatMap_cons, CompilationUnit.stabs,
      List.cons_append, names, if_pos u.isUnitHeader_header, u.value_header]
    simp only [names_append u.not_isUnitHeader, hrest, hentries, hname List.mem_cons_self]
    rfl

end Stab

/-! ## Lines -/

namespace Stab

/-- A hexadecimal number behind a label. -/
def labelled (label : String) (width n : Nat) : List Char :=
  label.toList ++ Text.numberIn 16 width '0' n

/-- The columns of an entry: the kind, the other byte, the description and the value. -/
def columns (s : Stab) : List Char :=
  labelled " type " 2 s.kind.toNat ++ labelled " other " 2 s.other.toNat
    ++ labelled " desc " 4 s.description.toNat ++ labelled " value " 8 s.value.toNat ++ [' ']

/-- The line of an entry with its name and its number: the number, the columns, and the name. -/
def row (p : (Stab × String) × Nat) : List Char :=
  [' ', ' '] ++ Text.numberIn 10 5 '0' p.2 ++ columns p.1.1 ++ p.1.2.toList

/-- The number and the name on a line. The columns between them have the same widths on each. -/
def readRow (l : List Char) : Nat × String :=
  let digits := (l.drop 2).takeWhile Char.isDigit
  (Text.Escape.valueOf 10 digits, String.ofList (l.drop (2 + digits.length + 43)))

/-- The names of a table: those on its lines but for the title and the empty line at its end. -/
def readNames (text : String) : List String :=
  (tableBody 1 '\n' text.toList).map fun l => (readRow l).2

/-- An entry is shown on its line. -/
lemma toList_stabLine (index : Nat) (s : Stab) (name : String) :
    (Report.stabLine index s name).toList = row ((s, name), index) := by
  have hline : Report.stabLine index s name =
      "  " ++ Text.decimalOf 5 index ++ " type " ++ Text.hexOf 2 s.kind.toNat ++ " other "
        ++ Text.hexOf 2 s.other.toNat ++ " " ++ ("desc " ++ Text.hexOf 4 s.description.toNat
        ++ " value " ++ Text.hexOf 8 s.value.toNat ++ " " ++ name) := rfl
  have hindent : "  ".toList = [' ', ' '] := rfl
  have hblank : " ".toList = [' '] := rfl
  have hdescription : " desc ".toList = [' '] ++ "desc ".toList := rfl
  rw [hline, row]
  simp only [columns, labelled, String.toList_append, Text.toList_hexOf, Text.toList_decimalOf,
    hindent, hblank, hdescription, List.append_assoc]

/-- A number that fits behind its label has its width. -/
lemma length_labelled {label : String} {width n : Nat} (hwidth : 0 < width) (h : n < 16 ^ width) :
    (labelled label width n).length = label.length + width := by
  rw [labelled, List.length_append, String.length_toList,
    Text.length_numberIn (by decide) hwidth h]

/-- The columns of an entry have the same width as those of any other. -/
lemma length_columns (s : Stab) : (columns s).length = 43 := by
  have hkind : (labelled " type " 2 s.kind.toNat).length = 8 :=
    length_labelled (by decide) s.kind.toNat_lt
  have hother : (labelled " other " 2 s.other.toNat).length = 9 :=
    length_labelled (by decide) s.other.toNat_lt
  have hdescription : (labelled " desc " 4 s.description.toNat).length = 10 :=
    length_labelled (by decide) s.description.toNat_lt
  have hvalue : (labelled " value " 8 s.value.toNat).length = 15 :=
    length_labelled (by decide) s.value.toNat_lt
  simp only [columns, List.length_append, List.length_singleton, hkind, hother, hdescription, hvalue]

/-- Number and name are read off a line. -/
lemma readRow_row (p : (Stab × String) × Nat) : readRow (row p) = (p.2, p.1.2) := by
  have hdigits : ((row p).drop 2).takeWhile Char.isDigit = Text.numberIn 10 5 '0' p.2 := by
    -- The columns start with a blank, so no digit follows those of the number.
    have hcolumns : (columns p.1.1 ++ p.1.2.toList).takeWhile Char.isDigit = [] := rfl
    rw [row, List.append_assoc, List.append_assoc]
    change (Text.numberIn 10 5 '0' p.2 ++ (columns p.1.1 ++ p.1.2.toList)).takeWhile _ = _
    rw [List.takeWhile_append_of_pos fun _ => Text.isDigit_of_mem_numberIn, hcolumns, List.append_nil]
  have hname : (row p).drop (2 + (Text.numberIn 10 5 '0' p.2).length + 43) = p.1.2.toList := by
    refine List.drop_left' ?_
    simp only [List.length_append, List.length_cons, List.length_nil, length_columns]
  have hnumber : Text.Escape.valueOf 10 (Text.numberIn 10 5 '0' p.2) = p.2 :=
    Text.valueOf_numberIn (by decide) (by decide) 5 p.2
  simp only [readRow, hdigits, hname, hnumber, String.ofList_toList]

/-- A line is broken only by its name. -/
lemma lineFeed_notMem_row {p : (Stab × String) × Nat} (h : '\n' ∉ p.1.2.toList) :
    '\n' ∉ row p := by
  have hnumber {base width n : Nat} (hbase : 1 < base) (hle : base ≤ 16) :
      '\n' ∉ Text.numberIn base width '0' n :=
    Text.lineFeed_notMem_numberIn hbase hle (by decide)
  simp [row, columns, labelled, h, hnumber]

/-- The title of a table of entries. -/
def tableTitle (count : Nat) : List (List Char) :=
  [s!"STABS ({count} entries)".toList]

/-- The lines of a table of entries with their names: its title, a line for each entry, and an empty
line. -/
def tableRows (named : List (Stab × String)) : List (List Char) :=
  tableTitle named.length ++ named.zipIdx.map row ++ [[]]

/-- A text is a table of entries with their names. -/
structure ShowsNames (named : List (Stab × String)) (text : String) : Prop where
  text_eq : text.toList = (tableRows named).flatMap (· ++ ['\n'])
  /-- Each line tells the number and the name of its entry. -/
  readRow_eq : ∀ p ∈ named.zipIdx, readRow (row p) = (p.2, p.1.2)
  /-- The text tells the names of all of them, unless a name breaks lines. -/
  readNames_eq : (∀ p ∈ named, '\n' ∉ p.2.toList) → readNames text = named.map Prod.snd

/-- The text of a table of entries. -/
lemma toList_stabTable {entries : List Stab} {names : List String}
    (h : entries.length = names.length) :
    (Report.stabTable entries names).toList =
      (tableRows (entries.zip names)).flatMap (· ++ ['\n']) := by
  have hlength : (entries.zip names).length = entries.length := by
    rw [List.length_zip, h, Nat.min_self]
  have hrows : ((entries.zip names).zipIdx.map fun p =>
      Report.stabLine p.2 p.1.1 p.1.2).map String.toList = (entries.zip names).zipIdx.map row := by
    rw [List.map_map]
    exact List.map_congr_left fun p _ => toList_stabLine p.2 p.1.1 p.1.2
  have htable : Report.stabTable entries names = Report.line s!"STABS ({entries.length} entries)" ++
      Report.lines ((entries.zip names).zipIdx.map fun p => Report.stabLine p.2 p.1.1 p.1.2) ++
      Report.line "" := rfl
  rw [htable]
  simp only [String.toList_append, Report.toList_line, Report.toList_lines, hrows, tableRows,
    tableTitle, hlength, List.flatMap_append, List.flatMap_singleton]
  rfl

/-- Entries are shown with their names. -/
lemma showsNames_stabTable {entries : List Stab} {names : List String}
    (h : entries.length = names.length) :
    ShowsNames (entries.zip names) (Report.stabTable entries names) := by
  refine ⟨toList_stabTable h, fun p _ => readRow_row p, fun hnames => ?_⟩
  have htitle : ∀ l ∈ tableTitle (entries.zip names).length, '\n' ∉ l := by
    simp only [tableTitle, List.forall_mem_singleton, String.toList_append, List.mem_append, not_or]
    exact ⟨⟨by decide, Text.lineFeed_notMem_toString _⟩, by decide⟩
  have hrows : ∀ l ∈ (entries.zip names).zipIdx.map row, '\n' ∉ l := by
    rw [List.forall_mem_map]
    exact fun p hp => lineFeed_notMem_row (hnames p.1 (List.fst_mem_of_mem_zipIdx hp))
  have hbody : tableBody 1 '\n' ((tableRows (entries.zip names)).flatMap (· ++ ['\n'])) =
      (entries.zip names).zipIdx.map row :=
    tableBody_flatMap rfl htitle hrows
  have hread : ((fun l => (readRow l).2) ∘ row) = Prod.snd ∘ Prod.fst := by
    funext p
    exact congrArg Prod.snd (readRow_row p)
  rw [readNames, toList_stabTable h, hbody, List.map_map, hread, ← List.map_map, List.zipIdx_map_fst]

end Stab

/-- The entries of units that were linked are shown with the names that they have in the strings of
their own units. Stray bytes behind the last entry do not matter while they make up no entry. -/
theorem stabs_flatMap (units : List CompilationUnit) {stray : Bytes} (hstray : stray.length < 12) :
    Stab.ShowsNames (units.flatMap CompilationUnit.named)
      (Report.PayloadFormat.basic.stabs
        ((units.flatMap CompilationUnit.stabs).flatMap Stab.layout.write ++ stray)
        (units.flatMap CompilationUnit.strings)) := by
  have hentries : Stab.layout.decodeAll
      ((units.flatMap CompilationUnit.stabs).flatMap Stab.layout.write ++ stray) =
      units.flatMap CompilationUnit.stabs :=
    (Layout.decodeAll_eq_iff_append (by decide)).mpr ⟨stray, hstray, rfl⟩
  have hnames := Stab.names_flatMap units [] 0
  rw [List.nil_append, List.length_nil] at hnames
  have hlength : (units.flatMap CompilationUnit.stabs).length =
      (units.flatMap fun u => u.stabs.map u.nameOf).length := by
    simp only [List.length_flatMap, List.length_map]
  have hshown := Stab.showsNames_stabTable hlength
  rw [CompilationUnit.zip_flatMap] at hshown
  change Stab.ShowsNames _ (Report.stabs _ _)
  rwa [Report.stabs, hentries, hnames]

/-- A unit of two entries. The name of the second one ends where that of the header does. -/
def firstUnit : CompilationUnit where
  header := ⟨0, 0, 0, 1, 5⟩
  entries := [⟨2, 0x24, 0, 7, 0x1000⟩]
  strings := [97, 46, 99, 120, 0]
  isUnitHeader_header := by decide
  not_isUnitHeader := by decide
  value_header := by decide
  getLast?_strings := by decide
  nameOffset_lt := by decide

/-- A unit of two entries, of which the second has the empty name. -/
def secondUnit : CompilationUnit where
  header := ⟨1, 0, 0, 1, 3⟩
  entries := [⟨2, 0x64, 0, 0, 0⟩]
  strings := [0, 98, 0]
  isUnitHeader_header := by decide
  not_isUnitHeader := by decide
  value_header := by decide
  getLast?_strings := by decide
  nameOffset_lt := by decide

/-- The header of the second unit already has its name in the strings of the second unit. -/
theorem stabs_flatMap_pair :
    ([7, 7, 7] : Bytes).length < 12 ∧ ∃ text : String,
      Report.PayloadFormat.basic.stabs (([firstUnit, secondUnit].flatMap CompilationUnit.stabs).flatMap
          Stab.layout.write ++ [7, 7, 7]) [97, 46, 99, 120, 0, 0, 98, 0] = text ∧
      text = "STABS (4 entries)\n"
        ++ "  00000 type 00 other 00 desc 0001 value 00000005 a.cx\n"
        ++ "  00001 type 24 other 00 desc 0007 value 00001000 cx\n"
        ++ "  00002 type 00 other 00 desc 0001 value 00000003 b\n"
        ++ "  00003 type 64 other 00 desc 0000 value 00000000 \n\n" ∧
      Stab.readNames text = ["a.cx", "cx", "b", ""] := by
  have hstray : ([7, 7, 7] : Bytes).length < 12 := by decide
  have hnamed : [firstUnit, secondUnit].flatMap CompilationUnit.named =
      [(⟨0, 0, 0, 1, 5⟩, "a.cx"), (⟨2, 0x24, 0, 7, 0x1000⟩, "cx"), (⟨1, 0, 0, 1, 3⟩, "b"),
        (⟨2, 0x64, 0, 0, 0⟩, "")] := by
    decide +kernel
  have hstrings : [firstUnit, secondUnit].flatMap CompilationUnit.strings =
      [97, 46, 99, 120, 0, 0, 98, 0] := rfl
  have htable := stabs_flatMap [firstUnit, secondUnit] hstray
  rw [hnamed, hstrings] at htable
  refine ⟨hstray, _, rfl, ?_, htable.readNames_eq (by decide)⟩
  rw [← String.toList_inj, htable.text_eq]
  decide +kernel

end PeCoff.DebugInfo
