import Mathlib
import PeCoff.CommandLine.Run
import PeCoff.Proofs.Export.Coverage
import PeCoff.Proofs.Export.Order
import PeCoff.Proofs.Lines
import PeCoff.Proofs.Utf8

/-!
# Reading the symbol listing back

The listing of the exported symbols is made of lines, each with an ordinal, a space and a name.
Names are whatever bytes the image holds. The main statement is `readListing_eq_iff`: cut at its
line feeds, and each line at its first space, the listing gives the symbols that a cursor hands out
exactly if no name of the image holds a line feed.
-/

namespace PeCoff

/-! ## Upper case -/

namespace Text.UpperCase

/-- Only a line feed has a line feed as its upper case. -/
lemma eq_of_lineFeed_mem_ofChar {c : Char} (h : '\n' ∈ ofChar c) : c = '\n' := by
  have hne : '\n' ≠ '\x00' := by decide
  have hexpansions : ∀ e ∈ expansions, ∀ n ∈ e.2, n ≠ '\n'.toNat := by decide +kernel
  have hruns : ∀ r ∈ runs, ('\n'.toNat : Int) < r.first + r.distance := by decide +kernel
  simp only [ofChar] at h
  split at h
  · rename_i e upper hfind
    obtain ⟨n, hn, hchar⟩ := List.mem_map.mp h
    have hupper := hexpansions _ (List.mem_of_find?_eq_some hfind) n hn
    exact absurd ((Utf8.ofNat_eq_iff hne).mp hchar) hupper
  · split at h
    · rename_i r hfind
      have hdistance := hruns r (List.mem_of_find?_eq_some hfind)
      have hcontains := List.find?_some hfind
      simp only [Run.contains, Bool.and_eq_true, decide_eq_true_eq] at hcontains
      have hchar := (Utf8.ofNat_eq_iff hne).mp (List.mem_singleton.mp h).symm
      omega
    · exact (List.mem_singleton.mp h).symm

/-- A text without line feeds has none in upper case. -/
lemma lineFeed_notMem_ofString {s : String} (h : '\n' ∉ s.toList) : '\n' ∉ (ofString s).toList := by
  rw [ofString, String.toList_ofList]
  intro hmem
  obtain ⟨c, hc, hupper⟩ := List.mem_flatMap.mp hmem
  exact h (eq_of_lineFeed_mem_ofChar hupper ▸ hc)

end Text.UpperCase

namespace CommandLine

open Export (Symbol Symbols Tables)

/-! ## Lines -/

/-- The lines of a text. Each ends in a line feed; what stands behind the last one is no line. -/
def lines (text : String) : List (List Char) :=
  (text.toList.splitOn '\n').dropLast

/-- The symbol on a line: the digits before the first space are the ordinal, and what stands behind
it is the name. -/
def symbolOfLine? (line : List Char) : Option Symbol :=
  match line.span (· ≠ ' ') with
  | (digits, _ :: name) =>
    if digits ≠ [] ∧ digits.all Char.isDigit then
      some ⟨UInt32.ofNat (Nat.ofDigitChars 10 digits 0), String.ofList name⟩
    else none
  | (_, []) => none

/-- What the lines of a listing show. -/
def readListing (text : String) : List (Option Symbol) :=
  (lines text).map symbolOfLine?

/-! ## The line of a symbol -/

variable {x : Symbol} {xs : List Symbol}

/-- The line of a symbol without the line feed at its end. -/
def row (x : Symbol) : List Char :=
  Nat.toDigits 10 x.ordinal.toNat ++ ' ' :: x.name.toList

/-- The line of a symbol is its row and a line feed. -/
lemma toList_symbolLine (x : Symbol) : (symbolLine x).toList = row x ++ ['\n'] := by
  have hline : symbolLine x = x.ordinal.toNat.repr ++ " " ++ x.name ++ "\n" := rfl
  simp [hline, row, Nat.toList_repr]

/-- A listing is its rows, each with a line feed behind it. -/
lemma toList_join_symbolLine (xs : List Symbol) :
    (String.join (xs.map symbolLine)).toList = (xs.map row).flatMap (· ++ ['\n']) := by
  rw [String.toList_join, List.flatMap_map, List.flatMap_map]
  exact List.flatMap_congr fun x _ => toList_symbolLine x

/-- Digits are no other characters. -/
lemma ne_of_mem_toDigits {n : Nat} {c d : Char} (hc : c ∈ Nat.toDigits 10 n) (hd : ¬ d.isDigit) :
    c ≠ d := by
  rintro rfl
  exact hd (Nat.isDigit_of_mem_toDigits (by decide) (by decide) hc)

/-- Whatever its name is, a symbol is read off its own line. -/
lemma symbolOfLine?_row (x : Symbol) : symbolOfLine? (row x) = some x := by
  have hspace : ∀ c ∈ Nat.toDigits 10 x.ordinal.toNat, decide (c ≠ ' ') := fun c hc =>
    decide_eq_true (ne_of_mem_toDigits hc (by decide))
  have hspan : (row x).span (· ≠ ' ') = (Nat.toDigits 10 x.ordinal.toNat, ' ' :: x.name.toList) := by
    rw [row, List.span_eq_takeWhile_dropWhile, List.takeWhile_append_of_pos hspace,
      List.dropWhile_append_of_pos hspace]
    simp
  have hdigits : Nat.toDigits 10 x.ordinal.toNat ≠ [] ∧
      (Nat.toDigits 10 x.ordinal.toNat).all Char.isDigit :=
    ⟨Nat.toDigits_ne_nil, List.all_eq_true.mpr fun c hc =>
      Nat.isDigit_of_mem_toDigits (by decide) (by decide) hc⟩
  rw [symbolOfLine?, hspan]
  simp only [if_pos hdigits, Nat.ofDigitChars_ten_toDigits, UInt32.ofNat_toNat, String.ofList_toList]

/-- A line holds a line feed of its own exactly if the name on it does. -/
lemma lineFeed_mem_row_iff : '\n' ∈ row x ↔ '\n' ∈ x.name.toList := by
  have hdigits : '\n' ∉ Nat.toDigits 10 x.ordinal.toNat := fun h =>
    ne_of_mem_toDigits h (by decide) rfl
  simp [row, hdigits]

/-- A listing of symbols is read back exactly if none of their names holds a line feed. -/
lemma readListing_join_eq_iff :
    readListing (.join (xs.map symbolLine)) = xs.map some ↔ ∀ x ∈ xs, '\n' ∉ x.name.toList := by
  have hrows : (∀ r ∈ xs.map row, '\n' ∉ r) ↔ ∀ x ∈ xs, '\n' ∉ x.name.toList := by
    simp only [List.forall_mem_map, lineFeed_mem_row_iff]
  rw [readListing, lines, toList_join_symbolLine, ← hrows]
  constructor
  · intro h
    have hlength := congrArg List.length h
    rw [List.length_map, List.length_dropLast, length_splitOn, Nat.add_sub_cancel, List.length_map,
      ← List.length_map row] at hlength
    exact count_flatMap_append_eq_iff.mp hlength
  · intro h
    rw [splitOn_flatMap_append h, List.dropLast_concat, List.map_map]
    exact List.map_congr_left fun x _ => symbolOfLine?_row x

/-! ## The names of an image -/

/-- No name in the export directory of an image holds a line feed, as far as names can be read. -/
def NamesWithoutLineFeed (e : Executable) : Prop :=
  ∀ d, e.exportDirectory = some d → ∀ p ∈ (Tables.read e.memory d).pairs, ∀ bs,
    e.memory.string p.2.toNat = some bs → 10 ∉ bs

/-- The name of a symbol holds a line feed exactly if the bytes of the name can be read and do. -/
lemma lineFeed_notMem_name_iff (memory : Memory) (address : Nat) :
    '\n' ∉ ((memory.text address).getD Symbols.unreadableName).toList ↔
      ∀ bs, memory.string address = some bs → 10 ∉ bs := by
  rw [Memory.text]
  cases memory.string address with
  | none =>
    have hname : '\n' ∉ Symbols.unreadableName.toList := by decide
    simpa using hname
  | some bs =>
    have hbytes : '\n' ∈ Text.Utf8.decode bs ↔ 10 ∈ bs :=
      Text.Utf8.mem_decode_iff (by decide) (by decide)
    simp [Text.ofUtf8, hbytes]

/-- A made-up name holds no line feed unless the tag does. -/
lemma lineFeed_notMem_synthetic {tag : String} (htag : '\n' ∉ tag.toList) (ordinal : UInt32) :
    '\n' ∉ (Symbols.synthetic tag ordinal).toList := by
  have hdigits : '\n' ∉ Nat.toDigits 10 ordinal.toNat := fun h =>
    ne_of_mem_toDigits h (by decide) rfl
  have hname : '\n' ∉ (tag ++ "_" ++ ordinal.toNat.repr).toList := by
    simp [htag, hdigits, Nat.toList_repr]
  exact Text.UpperCase.lineFeed_notMem_ofString hname

variable {e : Executable} {tag : String} {symbols : Symbols}

/-- The symbols of an image have names without line feeds exactly if its export directory has. -/
lemma lineFeed_notMem_names_iff (htag : '\n' ∉ tag.toList)
    (hs : e.exportSymbols tag = .ok symbols) :
    (∀ x ∈ symbols.pending, '\n' ∉ x.name.toList) ↔ NamesWithoutLineFeed e := by
  cases hd : e.exportDirectory with
  | none => simp [NamesWithoutLineFeed, hd, Executable.pending_eq_nil_of_exportDirectory hd hs]
  | some d =>
    rw [Executable.exportSymbols_eq_ofDirectory hd] at hs
    simp only [(Symbols.perm_unordered hs).mem_iff, Symbols.unordered, Symbols.namedSymbols,
      List.forall_mem_append, List.forall_mem_map, lineFeed_notMem_name_iff,
      lineFeed_notMem_synthetic htag, NamesWithoutLineFeed, hd]
    simp

/-- Under a tag without a line feed the listing of an image, cut at its line feeds and each line at
its first space, gives exactly the symbols that a cursor hands out, one on each line, if and only if
no name of the image holds a line feed. -/
theorem readListing_eq_iff (htag : '\n' ∉ tag.toList) (hs : e.exportSymbols tag = .ok symbols)
    (hxs : symbols.Yields xs) :
    ∃ text, listSymbols e tag = .ok text ∧
      (readListing text = xs.map some ↔ NamesWithoutLineFeed e) := by
  refine ⟨.join (symbols.pending.map symbolLine), ?_, ?_⟩
  · rw [listSymbols, hs]
    rfl
  · rw [Symbols.yields_iff.mp hxs, readListing_join_eq_iff]
    exact lineFeed_notMem_names_iff htag hs

/-- An image with three functions: the first has a name of given bytes, the second a name that lies
nowhere, and the last one none. -/
def nameImage (name : Bytes) : Image :=
  Build.image ⟨0x1000, 64⟩
    [(0x1000, Build.exportBytes 0x1000 [0x2000, 0x2004, 0x2008] [0x1040, 0x9000] [0, 1]
      ++ name ++ [0])]

/-- The export directory of this image. -/
def nameDirectory : Export.Directory :=
  Build.exportDirectory 0x1000 [0x2000, 0x2004, 0x2008] [0x1040, 0x9000]

/-- Symbols that are found in the order of their ordinals are handed out as they are found. -/
lemma exists_exportSymbols {d : Export.Directory} (hd : e.exportDirectory = some d)
    (hr : (Tables.read e.memory d).Readable) (tag : String)
    (hxs : Symbols.unordered e.memory d tag = xs)
    (hsorted : xs.Pairwise fun a b => decide (a.ordinal ≤ b.ordinal)) :
    ∃ symbols, e.exportSymbols tag = .ok symbols ∧ symbols.pending = xs := by
  refine ⟨_, (Executable.exportSymbols_eq_ofDirectory hd tag).trans (Symbols.ofDirectory_eq tag hr), ?_⟩
  rw [hxs]
  exact List.mergeSort_of_pairwise hsorted

/-- Spaces, carriage returns and bytes that are no text do no harm, in names as well as in the
tag. -/
theorem readListing_eq_iff_spaces :
    ∃ e symbols text, Executable.parse (nameImage [65, 32, 32, 13, 0xFF, 0x85, 9]) = .ok e ∧
      '\n' ∉ "my lib".toList ∧ e.exportSymbols "my lib" = .ok symbols ∧
      symbols.pending = [⟨1, "A  \r\uFFFD\uFFFD\t"⟩, ⟨2, "cant_get_function"⟩, ⟨3, "MY LIB_3"⟩] ∧
      NamesWithoutLineFeed e ∧ listSymbols e "my lib" = .ok text ∧
      readListing text = symbols.pending.map some := by
  obtain ⟨e, he, hd, hr, hnames, hfound⟩ : ∃ e,
      Executable.parse (nameImage [65, 32, 32, 13, 0xFF, 0x85, 9]) = .ok e ∧
      e.exportDirectory = some nameDirectory ∧ (Tables.read e.memory nameDirectory).Readable ∧
      (∀ p ∈ (Tables.read e.memory nameDirectory).pairs,
        ∀ bs ∈ e.memory.string p.2.toNat, 10 ∉ bs) ∧
      Symbols.unordered e.memory nameDirectory "my lib" =
        [⟨1, "A  \r\uFFFD\uFFFD\t"⟩, ⟨2, "cant_get_function"⟩, ⟨3, "MY LIB_3"⟩] :=
    Build.exists_of_any (by decide +kernel)
  have htag : '\n' ∉ "my lib".toList := by decide
  have hlineFeed : NamesWithoutLineFeed e := by
    intro d hd' p hp bs hbs
    cases Option.some.inj (hd.symm.trans hd')
    exact hnames p hp bs hbs
  obtain ⟨symbols, hs, hpending⟩ := exists_exportSymbols hd hr "my lib" hfound (by decide)
  obtain ⟨text, htext, hiff⟩ := readListing_eq_iff htag hs (Symbols.yields_iff.mpr rfl)
  exact ⟨e, symbols, text, he, htag, hs, hpending, hlineFeed, htext, hiff.mpr hlineFeed⟩

/-- With a line feed in a name there are more lines than symbols, and one of them shows none. -/
theorem exists_readListing_ne :
    ∃ e symbols xs text, Executable.parse (nameImage [65, 10, 66]) = .ok e ∧
      '\n' ∉ "lib".toList ∧ e.exportSymbols "lib" = .ok symbols ∧ symbols.Yields xs ∧
      xs = [⟨1, "A\nB"⟩, ⟨2, "cant_get_function"⟩, ⟨3, "LIB_3"⟩] ∧
      listSymbols e "lib" = .ok text ∧
      readListing text =
        [some ⟨1, "A"⟩, none, some ⟨2, "cant_get_function"⟩, some ⟨3, "LIB_3"⟩] ∧
      readListing text ≠ xs.map some := by
  obtain ⟨e, he, hd, hr, hfound⟩ : ∃ e, Executable.parse (nameImage [65, 10, 66]) = .ok e ∧
      e.exportDirectory = some nameDirectory ∧ (Tables.read e.memory nameDirectory).Readable ∧
      Symbols.unordered e.memory nameDirectory "lib" =
        [⟨1, "A\nB"⟩, ⟨2, "cant_get_function"⟩, ⟨3, "LIB_3"⟩] :=
    Build.exists_of_any (by decide +kernel)
  obtain ⟨symbols, hs, hpending⟩ := exists_exportSymbols hd hr "lib" hfound (by decide)
  have hlisting : listSymbols e "lib" = .ok "1 A\nB\n2 cant_get_function\n3 LIB_3\n" := by
    rw [listSymbols, hs]
    exact congrArg Except.ok (congrArg String.join (congrArg (List.map symbolLine) hpending))
  have hread : readListing "1 A\nB\n2 cant_get_function\n3 LIB_3\n" =
      [some ⟨1, "A"⟩, none, some ⟨2, "cant_get_function"⟩, some ⟨3, "LIB_3"⟩] := by
    decide +kernel
  refine ⟨e, symbols, _, _, he, by decide, hs, Symbols.yields_iff.mpr hpending.symm, rfl, hlisting,
    hread, ?_⟩
  rw [hread]
  decide

end CommandLine

end PeCoff
