import Mathlib
import PeCoff.CommandLine.Arguments
import PeCoff.Proofs.Container
import PeCoff.Proofs.Machine.Access
import PeCoff.Proofs.Resolution
import PeCoff.Report.Document

/-!
# Composition of reports

A report is put together from the texts of its parts. The main statement is `executable_composes`:
each part of a report is what a report says that shows this part alone, in whatever order and
however often the directories are named. The text of a directory stays the same when other
directories lie elsewhere, even if they are malformed there (`DifferIn.part_eq`). Any image that can
be laid out can be laid out with its directories elsewhere (`Container.differIn_withHeader`).
-/

namespace PeCoff

/-- Two steps have a result when the first one has one and the second one has one for it. -/
lemma bind_eq_ok_iff {ε α β : Type} {x : Except ε α} {f : α → Except ε β} {b : β} :
    x >>= f = .ok b ↔ ∃ a, x = .ok a ∧ f a = .ok b := by
  cases x with
  | error error =>
    constructor
    · rintro ⟨⟩
    · rintro ⟨a, ⟨⟩, -⟩
  | ok a =>
    constructor
    · intro h
      exact ⟨a, rfl, h⟩
    · rintro ⟨a, ⟨⟩, h⟩
      exact h

namespace Report

variable {p q : Part} {names : List String} {parts : List Part}

/-! ## Selections -/

/-- No two parts have one name. -/
lemma Part.name_injective : Function.Injective Part.name := by
  intro p q h
  cases p <;> cases q <;> first | rfl | exact absurd h (by decide)

/-- A part is found by its name and by nothing else. -/
lemma Part.ofName_eq_ok_iff {name : String} : ofName name = .ok p ↔ p.name = name := by
  rw [ofName]
  constructor
  · intro h
    split at h
    case h_1 part hfind =>
      cases h
      simpa using List.find?_some hfind
    case h_2 => cases h
  · rintro rfl
    have hfind : all.find? (fun part => part.name = p.name) = some p := by
      cases p <;> rfl
    rw [hfind]

/-- Parts are found by names exactly when these are their names. -/
lemma Part.mapM_ofName_eq_ok_iff : names.mapM ofName = .ok parts ↔ parts.map name = names := by
  induction names generalizing parts with
  | nil =>
    rw [List.mapM_nil, List.map_eq_nil_iff]
    exact ⟨fun h => (Except.ok.inj h).symm, fun h => congrArg Except.ok h.symm⟩
  | cons word names ih =>
    rw [List.mapM_cons, List.map_eq_cons_iff]
    simp only [bind_eq_ok_iff, ofName_eq_ok_iff, ih]
    constructor
    · rintro ⟨q, hword, found, hnames, ⟨⟩⟩
      exact ⟨q, found, rfl, hword, hnames⟩
    · rintro ⟨q, found, rfl, hword, hnames⟩
      exact ⟨q, hword, found, hnames, rfl⟩

end Report

namespace CommandLine.Arguments

open Report

variable {a : Arguments} {options : Options}

/-- A part is selected by its name, or by a word for all parts. -/
def selects (a : Arguments) (p : Part) : Bool :=
  a.all || a.directories.contains "ALL" || a.directories.contains p.name

/-- What is selected depends on whether all directories are asked for, or none, or some by name. -/
lemma selection_eq_ok_iff {selection : Option Selection} : a.selection = .ok selection ↔
    if a.all || a.directories.contains "ALL" then selection = some .all
    else if a.directories = [] then selection = none
    else ∃ parts : List Part, parts.map Part.name = a.directories ∧
      selection = some (.only parts) := by
  rw [Arguments.selection]
  split_ifs
  · exact ⟨fun h => (Except.ok.inj h).symm, fun h => congrArg Except.ok h.symm⟩
  · exact ⟨fun h => (Except.ok.inj h).symm, fun h => congrArg Except.ok h.symm⟩
  · rw [bind_eq_ok_iff]
    simp only [Part.mapM_ofName_eq_ok_iff]
    constructor
    · rintro ⟨parts, hparts, ⟨⟩⟩
      exact ⟨parts, hparts, rfl⟩
    · rintro ⟨parts, hparts, rfl⟩
      exact ⟨parts, hparts, rfl⟩

/-- The options are known when the selection is. -/
lemma options_eq_ok_iff : a.options = .ok options ↔ ∃ selection, a.selection = .ok selection ∧
    options = ⟨a.header || a.all, selection, a.rawData, a.symbols, a.stabs⟩ := by
  rw [Arguments.options, bind_eq_ok_iff]
  constructor
  · rintro ⟨selection, hselection, ⟨⟩⟩
    exact ⟨selection, hselection, rfl⟩
  · rintro ⟨selection, hselection, rfl⟩
    exact ⟨selection, hselection, rfl⟩

/-- A part is selected in the options when it is selected on the command line. -/
lemma any_contains_of_selection {selection : Option Selection} (h : a.selection = .ok selection)
    (p : Part) : selection.any (·.contains p) = a.selects p := by
  rw [selection_eq_ok_iff] at h
  rw [selects]
  split_ifs at h with hall hnil
  · rw [h, hall]
    rfl
  · rw [h, Bool.eq_false_iff.mpr hall, hnil]
    rfl
  · obtain ⟨parts, hparts, rfl⟩ := h
    rw [Bool.eq_false_iff.mpr hall, ← hparts]
    simp [Selection.contains, Part.name_injective.eq_iff]

end CommandLine.Arguments

namespace Report

variable {format : PayloadFormat} {options : Options} {e : Executable}

/-! ## Texts of the parts -/

/-- What a report says after the line on an image that holds the place of another one. -/
def after (format : PayloadFormat) (options : Options) (e : Executable) : String :=
  .ofList ((executable format options e).toList.drop (advisory e).toList.length)

/-- The options that ask for one directory and nothing else. -/
def Options.only (p : Part) : Options :=
  { selection := some (.only [p]) }

/-- The options that ask for the same headers and nothing else. -/
def Options.headersOnly (options : Options) : Options :=
  { options with
    selection := options.selection.map fun _ => .only []
    symbolTable := false
    stabs := false }

/-- The options that ask for the symbol table and nothing else. -/
def Options.symbolsOnly : Options :=
  { selection := some (.only []), symbolTable := true }

/-- The options that ask for the entries of the `.stab` section and nothing else. -/
def Options.stabsOnly : Options :=
  { selection := some (.only []), stabs := true }

/-- The texts of the directories that the options select. -/
def selected (format : PayloadFormat) (options : Options) (e : Executable) : String :=
  .join ((Part.all.filter fun p => options.selection.any (·.contains p)).map (part format e))

/-- A report is the advisory and what comes after it. -/
lemma executable_eq : executable format options e = advisory e ++ (headers options e
    ++ selected format options e
    ++ (if options.symbolTable then symbols format e else "")
    ++ (if options.stabs then stabEntries format e else "")) := by
  rw [executable]
  cases hselection : options.selection with
  | none =>
    have hselected : selected format options e = "" := by
      rw [selected, hselection]
      rfl
    simp only [hselected, String.append_assoc]
  | some selection =>
    have hselected : selected format options e = directories format selection e := by
      rw [selected, hselection]
      rfl
    simp only [hselected, String.append_assoc]

/-- After the advisory come the headers, the selected parts and the two tables. -/
lemma after_eq : after format options e = headers options e
    ++ selected format options e
    ++ (if options.symbolTable then symbols format e else "")
    ++ (if options.stabs then stabEntries format e else "") := by
  rw [after, executable_eq, String.toList_append, List.drop_left, String.ofList_toList]

/-- Without a selected part nothing is printed of the directories. -/
lemma selected_of_none (h : ∀ p, options.selection.any (·.contains p) = false) :
    selected format options e = "" := by
  rw [selected, List.filter_eq_nil_iff.mpr fun p _ => by rw [h p]; exact Bool.false_ne_true]
  rfl

/-- A report without parts and tables has its headers alone. -/
lemma after_headersOnly : after format options.headersOnly e = headers options e := by
  have hnone : selected format options.headersOnly e = "" := by
    apply selected_of_none
    intro p
    rw [Options.headersOnly]
    cases options.selection <;> rfl
  have hheaders : headers options.headersOnly e = headers options e := by
    rw [headers, headers, Options.headersOnly, Option.isNone_map]
  rw [after_eq, hnone, hheaders]
  simp [Options.headersOnly]

/-- A report of one part has this part alone. -/
lemma after_only (p : Part) : after format (.only p) e = part format e p := by
  have hfilter : Part.all.filter (Selection.only [p]).contains = [p] := by
    cases p <;> rfl
  rw [after_eq]
  simp [Options.only, headers, selected, hfilter]

/-- A report of the symbols has the symbol table alone. -/
lemma after_symbolsOnly : after format .symbolsOnly e = symbols format e := by
  rw [after_eq, selected_of_none fun p => rfl]
  simp [Options.symbolsOnly, headers]

/-- A report of the stabs has their table alone. -/
lemma after_stabsOnly : after format .stabsOnly e = stabEntries format e := by
  rw [after_eq, selected_of_none fun p => rfl]
  simp [Options.stabsOnly, headers]

/-- A report is put together from the texts of what it shows, each of which is what a report says
that shows nothing else. -/
lemma executable_composed : executable format options e = advisory e
    ++ after format options.headersOnly e
    ++ .join ((Part.all.filter fun p => options.selection.any (·.contains p)).map fun p =>
        after format (.only p) e)
    ++ (if options.symbolTable then after format .symbolsOnly e else "")
    ++ (if options.stabs then after format .stabsOnly e else "") := by
  simp only [after_headersOnly, after_only, after_symbolsOnly, after_stabsOnly]
  rw [executable_eq, selected]
  simp only [String.append_assoc]

/-! ## Independence of the parts -/

/-- The part that shows the directory of a slot. -/
def partOf? : DirectorySlot → Option Part
  | .imports | .delayImports => some .imports
  | .exports => some .exports
  | .debug => some .debug
  | .resources => some .resources
  | .threadStorage => some .threadStorage
  | .commonRuntime => some .commonRuntime
  | .relocations => some .relocations
  | .exceptions => some .exceptions
  | _ => none

/-- Two images differ at most in the places of the directories that a part shows, and in their files
before an offset. No section lies before the offset, and no piece of debug information does unless
that is the part. -/
structure DifferIn (p : Part) (start : Nat) (e e' : Executable) : Prop where
  coffHeader_eq : e.coffHeader = e'.coffHeader
  isWide_eq : e.isWide = e'.isWide
  imageBase_eq : e.imageBase = e'.imageBase
  sections_eq : e.sections = e'.sections
  slots : ∀ slot, partOf? slot ≠ some p → e.dataDirectory slot.index = e'.dataDirectory slot.index
  size_eq : e.image.size = e'.image.size
  files : e.image.toList.drop start = e'.image.toList.drop start
  behind : ∀ s ∈ e.sections, start ≤ s.pointerToRawData.toNat
  debug_behind : p ≠ .debug → ∀ entries, e.debugEntries = some entries →
    ∀ x ∈ entries, start ≤ x.directory.pointerToRawData.toNat

namespace DifferIn

variable {start : Nat} {e' : Executable}

/-- Both files hold the same behind the offset. -/
lemma read_eq (h : DifferIn p start e e') {offset : Nat} (hle : start ≤ offset) (length : Nat) :
    e.image.read offset length = e'.image.read offset length := by
  obtain ⟨k, rfl⟩ := Nat.exists_eq_add_of_le hle
  rw [Image.read, Image.read, h.size_eq, Image.clipped_eq, Image.clipped_eq, ← List.drop_drop,
    ← List.drop_drop, h.files]

/-- Both images have the same memory, since no section lies before the offset. -/
lemma memory_eq (h : DifferIn p start e e') : e.memory = e'.memory := by
  funext address length
  rw [Executable.memory, Executable.memory, Executable.fileOffset, Executable.fileOffset,
    ← h.sections_eq]
  cases hoffset : SectionHeader.resolve e.sections address length with
  | none => rfl
  -- What is read lies in a section, and no section lies where the files differ.
  | some offset =>
    obtain ⟨s, later, hplaces, rfl⟩ := SectionHeader.resolve_eq_some_iff.mp hoffset
    obtain ⟨earlier, hlisted⟩ := hplaces.listed
    have hs : s ∈ e.sections := by simp [hlisted]
    exact h.read_eq (Nat.le_add_right_of_le (h.behind s hs)) length

/-- Both images have the same directories but for those of the part. -/
lemma directoryOf_eq (h : DifferIn p start e e') {slot : DirectorySlot}
    (hslot : partOf? slot ≠ some p) : e.directoryOf slot = e'.directoryOf slot := by
  rw [Executable.directoryOf, Executable.directoryOf, Executable.directory, Executable.directory,
    h.slots slot hslot, h.memory_eq]

/-- The debug information is the same, piece by piece. -/
lemma debugEntries_eq (h : DifferIn p start e e') (hp : p ≠ .debug) :
    e.debugEntries = e'.debugEntries := by
  have hdirectory : e.directoryOf .debug = e'.directoryOf .debug :=
    h.directoryOf_eq fun hdebug => hp (Option.some.inj hdebug).symm
  have hbehind := h.debug_behind hp
  rw [Executable.debugEntries] at hbehind ⊢
  rw [Executable.debugEntries, ← hdirectory]
  cases hfound : e.directoryOf .debug with
  | none => rfl
  | some found =>
    rw [hfound] at hbehind
    refine congrArg some (List.map_congr_left fun d hd => ?_)
    have hle : start ≤ d.pointerToRawData.toNat :=
      hbehind _ rfl ⟨d, _⟩ (List.mem_map.mpr ⟨d, hd, rfl⟩)
    rw [DebugInfo.Entry.payloadOf, DebugInfo.Entry.payloadOf, h.read_eq hle]

/-- The text of a part is the same in both images unless they differ in its directories. -/
lemma part_eq (h : DifferIn p start e e') (hq : q ≠ p) : part format e q = part format e' q := by
  -- Only the slot of `p` may differ, and each part reads the slot that belongs to it.
  have hdirectory (slot : DirectorySlot) (hslot : partOf? slot = some q) :
      e.directoryOf slot = e'.directoryOf slot :=
    h.directoryOf_eq fun hp => hq (Option.some.inj (hslot.symm.trans hp))
  have hmemory := h.memory_eq
  cases q with
  | imports =>
    have himports : e.imports = e'.imports := by
      rw [Executable.imports, hdirectory .imports rfl, hmemory, h.isWide_eq]; rfl
    have hdelayed : e.delayedImports = e'.delayedImports := by
      rw [Executable.delayedImports, hdirectory .delayImports rfl, hmemory, h.isWide_eq,
        h.imageBase_eq]
      rfl
    have hoffset : descriptorOffset e = descriptorOffset e' := by
      funext address
      rw [descriptorOffset, Executable.fileOffset, h.sections_eq]; rfl
    rw [part, imports, delayedImports, himports, hdelayed, hoffset]; rfl
  | exports =>
    have hheader : e.exportDirectory = e'.exportDirectory := by
      rw [Executable.exportDirectory, hdirectory .exports rfl, hmemory]; rfl
    have hexports : e.exports = e'.exports := by
      rw [Executable.exports, hdirectory .exports rfl, hmemory]; rfl
    rw [part, exports, hheader, hexports, hmemory]; rfl
  -- Debug payloads are read at offsets of the file and not through the memory.
  | debug =>
    rw [part, debug, h.debugEntries_eq (Ne.symm hq), h.sections_eq]; rfl
  | resources =>
    have hresources : e.resources = e'.resources := by
      rw [Executable.resources, hdirectory .resources rfl, hmemory]; rfl
    rw [part, resources, hresources]; rfl
  | threadStorage =>
    have hstorage : e.threadStorage = e'.threadStorage := by
      rw [Executable.threadStorage, hdirectory .threadStorage rfl, hmemory, h.isWide_eq,
        h.imageBase_eq]
      rfl
    rw [part, threadStorage, hstorage]; rfl
  | commonRuntime =>
    have hruntime : e.commonRuntime = e'.commonRuntime := by
      rw [Executable.commonRuntime, hdirectory .commonRuntime rfl, hmemory]; rfl
    rw [part, commonRuntime, hruntime]; rfl
  | relocations =>
    have hrelocations : e.relocations = e'.relocations := by
      rw [Executable.relocations, hdirectory .relocations rfl]; rfl
    rw [part, relocations, hrelocations]; rfl
  | exceptions =>
    have hexceptions : e.exceptions = e'.exceptions := by
      rw [Executable.exceptions, hdirectory .exceptions rfl, hmemory]; rfl
    rw [part, exceptions, hexceptions, h.coffHeader_eq]; rfl

end DifferIn

end Report

/-! ## Images that differ in a part -/

namespace OptionalHeader

variable {h h' : OptionalHeader}

/-- Headers of one width are written in equally many bytes. -/
lemma length_write_complete_eq (hwide : h.isWide = h'.isWide) :
    h.complete.write.length = h'.complete.write.length := by
  cases h with
  | narrow fields =>
    cases h' with
    | narrow fields' => simp only [complete, write, Layout.length_write]
    | wide fields' => cases hwide
  | wide fields =>
    cases h' with
    | narrow fields' => cases hwide
    | wide fields' => simp only [complete, write, Layout.length_write]

/-- A completed header keeps its width. -/
lemma isWide_complete : h.complete.isWide = h.isWide := by
  cases h <;> rfl

/-- A completed header keeps its image base. -/
lemma imageBase_complete : h.complete.imageBase = h.imageBase := by
  cases h <;> rfl

end OptionalHeader

namespace Container

/-- Sections that are laid out from an offset on do not lie before it. -/
lemma le_pointerToRawData {alignment offset : Nat} {parts : List Part}
    (hsize : offset + (parts.flatMap (Part.content alignment)).length < 2 ^ 32) :
    ∀ s ∈ sectionsFrom alignment offset parts, offset ≤ s.pointerToRawData.toNat := by
  induction parts generalizing offset with
  | nil => exact fun s hs => absurd hs List.not_mem_nil
  | cons p parts ih =>
    rw [List.flatMap_cons, List.length_append] at hsize
    rintro s (_ | ⟨_, hs⟩)
    · exact (UInt32.toNat_ofNat_of_lt' (show offset < 2 ^ 32 by omega)).ge
    · exact Nat.le_trans (Nat.le_add_right _ _) (ih (by omega) s hs)

variable {c : Container} {h : OptionalHeader}

/-- The sections lie behind the headers. -/
lemma toList_image (hpos : 0 < c.alignment) : ∃ headers : Bytes,
    headers.length = c.contentOffset ∧
    c.image.toList = headers ++ c.parts.flatMap (Part.content c.alignment) := by
  refine ⟨c.headerBytes.padded c.alignment, ?_, ?_⟩
  · rw [Bytes.length_padded hpos, length_headerBytes, contentOffset]
  · rw [image, Image.toList_ofList]

/-- A laid-out image ends with the contents of its last section. -/
lemma size_image (hpos : 0 < c.alignment) : c.image.size =
    c.contentOffset + (c.parts.flatMap (Part.content c.alignment)).length := by
  obtain ⟨headers, hlength, himage⟩ := toList_image hpos
  rw [← Image.length_toList, himage, List.length_append, hlength]

/-- Behind the headers of a laid-out image come the contents of its sections. -/
lemma drop_image (hpos : 0 < c.alignment) :
    c.image.toList.drop c.contentOffset = c.parts.flatMap (Part.content c.alignment) := by
  obtain ⟨headers, hlength, himage⟩ := toList_image hpos
  rw [himage, List.drop_left' hlength]

/-- An image with another optional header, in other respects laid out alike. -/
def withHeader (c : Container) (h : OptionalHeader) : Container :=
  { c with optionalHeader := h }

section SameSpace

variable (hwide : c.optionalHeader.isWide = h.isWide)
  (halign : c.optionalHeader.fileAlignment = h.fileAlignment)

include halign in

/-- Another optional header keeps the alignment. -/
lemma alignment_withHeader : (c.withHeader h).alignment = c.alignment :=
  congrArg UInt32.toNat halign.symm

include hwide in

/-- An optional header of the same width keeps the file header. -/
lemma fileHeader_withHeader : (c.withHeader h).fileHeader = c.fileHeader := by
  have hlength := OptionalHeader.length_write_complete_eq hwide
  simp only [withHeader, fileHeader, fullHeader, hlength]

include hwide halign

/-- An optional header of the same width keeps the place of the contents. -/
lemma contentOffset_withHeader : (c.withHeader h).contentOffset = c.contentOffset := by
  have hlength := OptionalHeader.length_write_complete_eq hwide
  rw [contentOffset, contentOffset, alignment_withHeader halign, tableOffset, tableOffset,
    fullHeader, fullHeader, withHeader, hlength]

/-- An optional header of the same width keeps the size of the image. -/
lemma size_withHeader (hpos : 0 < c.alignment) :
    (c.withHeader h).image.size = c.image.size := by
  have halignment := alignment_withHeader halign
  rw [size_image hpos, size_image (halignment ▸ hpos), contentOffset_withHeader hwide halign,
    halignment, withHeader]

/-- An image can be laid out with another optional header that takes the same space. -/
lemma wellFormed_withHeader (hc : c.WellFormed) : (c.withHeader h).WellFormed := by
  have halignment := alignment_withHeader halign
  exact {
    alignment_pos := halignment ▸ hc.alignment_pos
    length_parts_lt := hc.length_parts_lt
    size_lt := (size_withHeader hwide halign hc.alignment_pos).symm ▸ hc.size_lt
    address_pos := hc.address_pos
    disjoint := halignment.symm ▸ hc.disjoint }

/-- An image that is laid out with other places for the directories that a part shows differs in
that part only, when its debug information does not lie in the headers. -/
lemma differIn_withHeader {p : Report.Part} (hc : c.WellFormed)
    (hbase : c.optionalHeader.imageBase = h.imageBase)
    (hslots : ∀ slot, Report.partOf? slot ≠ some p →
      c.optionalHeader.slots[slot.index]? = h.slots[slot.index]?)
    (hdebug : p ≠ .debug → ∀ entries, c.executable.debugEntries = some entries →
      ∀ x ∈ entries, c.contentOffset ≤ x.directory.pointerToRawData.toNat) :
    Report.DifferIn p c.contentOffset c.executable (c.withHeader h).executable := by
  have halignment := alignment_withHeader halign
  have hoffset := contentOffset_withHeader hwide halign
  have hpos := hc.alignment_pos
  have hpos' : 0 < (c.withHeader h).alignment := halignment ▸ hpos
  have hsize := hc.size_lt
  rw [size_image hpos] at hsize
  exact {
    coffHeader_eq := (fileHeader_withHeader hwide).symm
    isWide_eq := by
      rw [Executable.isWide, Executable.isWide, executable, executable, fullHeader, fullHeader,
        OptionalHeader.isWide_complete, OptionalHeader.isWide_complete, hwide, withHeader]
    imageBase_eq := by
      rw [Executable.imageBase, Executable.imageBase, executable, executable, fullHeader,
        fullHeader, OptionalHeader.imageBase_complete, OptionalHeader.imageBase_complete, hbase,
        withHeader]
    sections_eq := by
      rw [executable, executable, sections, sections, halignment, hoffset, withHeader]
    slots := fun slot hslot => by
      rw [Executable.dataDirectory, Executable.dataDirectory, executable, executable, fullHeader,
        fullHeader, OptionalHeader.slot?_complete, OptionalHeader.slot?_complete, hslots slot hslot,
        withHeader]
    size_eq := (size_withHeader hwide halign hpos).symm
    files := by
      rw [executable, executable, drop_image hpos, ← hoffset, drop_image hpos', halignment,
        withHeader]
    behind := le_pointerToRawData hsize
    debug_behind := hdebug }

end SameSpace

end Container

namespace Report

variable {p q : Part} {format : PayloadFormat} {options : Options} {e : Executable}

/-! ## Composition -/

/-- Selecting each directory is selecting all of them. -/
lemma executable_eq_of_selects (h : ∀ p, options.selection.any (·.contains p)) :
    executable format options e =
      executable format { options with selection := some .all } e := by
  obtain ⟨selection, hselection⟩ : ∃ selection, options.selection = some selection := by
    cases hnone : options.selection with
    | none => simpa [hnone] using h .imports
    | some selection => exact ⟨selection, rfl⟩
  have hselected : selected format options e =
      selected format { options with selection := some .all } e := by
    rw [selected, selected, List.filter_eq_self.mpr fun p _ => h p]
    rfl
  have hheaders : headers options e = headers { options with selection := some .all } e := by
    rw [headers, headers, hselection]
    rfl
  rw [executable_eq, executable_eq, hselected, hheaders]

/-- A report consists of the advisory, the headers, the selected directories in a fixed order, the
symbol table and the entries of the `.stab` section. Each of these is what a report says after the
advisory that asks for nothing else. To select all directories by their names is to select `ALL`.
When the directories of one part lie elsewhere, malformed or not, the other parts stay the same. -/
theorem executable_composes (format : PayloadFormat) (e : Executable)
    {a : CommandLine.Arguments} {options : Options} (h : a.options = .ok options) :
    executable format options e = advisory e
        ++ after format options.headersOnly e
        ++ .join ((Part.all.filter a.selects).map fun p => after format (.only p) e)
        ++ (if a.symbols then after format .symbolsOnly e else "")
        ++ (if a.stabs then after format .stabsOnly e else "") ∧
    ((∀ p : Part, p.name ∈ a.directories) →
      ∃ options', { a with directories := ["ALL"] }.options = .ok options' ∧
        executable format options e = executable format options' e) ∧
    ∀ p start e', DifferIn p start e e' → ∀ q, q ≠ p →
      after format (.only q) e = after format (.only q) e' := by
  obtain ⟨selection, hselection, rfl⟩ := CommandLine.Arguments.options_eq_ok_iff.mp h
  have hselects := CommandLine.Arguments.any_contains_of_selection hselection
  refine ⟨?_, fun hnames => ?_, fun p start e' hdiffer q hq => ?_⟩
  · rw [executable_composed]
    simp only [hselects]
  · have hall (p : Part) : a.selects p := by
      simp [CommandLine.Arguments.selects, hnames p]
    refine ⟨⟨a.header || a.all, some .all, a.rawData, a.symbols, a.stabs⟩, ?_, ?_⟩
    · simp [CommandLine.Arguments.options, CommandLine.Arguments.selection]
    · exact executable_eq_of_selects fun p => (hselects p).trans (hall p)
  · rw [after_only, after_only, hdiffer.part_eq hq]

/-- The header of an image with relocations, and with an export directory at a place. -/
def relocatedHeader (exports : DataDirectory) : OptionalHeader :=
  .narrow { OptionalHeader.narrowLayout.read fun _ => 0 with
    fileAlignment := 8
    slots := Vector.ofFn fun i =>
      if i.val = 0 then exports else if i.val = 5 then ⟨0x1000, 12⟩ else ⟨0, 0⟩ }

/-- An image without an export directory whose section holds relocations. -/
def relocated : Container where
  dosHeader := ⟨4, 64, 0⟩
  coffHeader := CoffHeader.layout.read fun _ => 0
  optionalHeader := relocatedHeader ⟨0, 0⟩
  parts := [⟨{ SectionHeader.layout.read fun _ => 0 with virtualAddress := 0x1000 },
    Layout.u32.write 0x2000 ++ Layout.u32.write 12 ++ [5, 0x30, 0, 0] ++ List.replicate 28 0⟩]

/-- The same image with an export directory whose tables are missing. -/
def malformed : Container :=
  relocated.withHeader (relocatedHeader ⟨0x1000, 1⟩)

/-- The sample can be laid out. -/
lemma wellFormed_relocated : relocated.WellFormed where
  alignment_pos := by decide
  length_parts_lt := by decide
  size_lt := by
    rw [Container.size_image (by decide)]
    decide +kernel
  address_pos := by decide
  disjoint := List.pairwise_singleton _ _

/-- The sample can be laid out with another place of its exports. -/
lemma wellFormed_malformed : malformed.WellFormed := by
  apply Container.wellFormed_withHeader
  · rfl
  · rfl
  · exact wellFormed_relocated

/-- The two samples differ in their exports alone. -/
lemma differIn_malformed :
    DifferIn .exports relocated.contentOffset relocated.executable malformed.executable := by
  apply Container.differIn_withHeader
  case hwide => rfl
  case halign => rfl
  case hc => exact wellFormed_relocated
  case hbase => rfl
  case hslots =>
    have hslots : ∀ slot ∈ DirectorySlot.all, slot ≠ .exports →
        relocated.optionalHeader.slots[slot.index]? =
          (relocatedHeader ⟨0x1000, 1⟩).slots[slot.index]? := by
      decide +kernel
    intro slot hslot
    exact hslots slot (by cases slot <;> decide) fun hexports => hslot (by rw [hexports]; rfl)
  case hdebug =>
    have hnone : relocated.executable.debugEntries = none := by decide +kernel
    intro _ entries hentries
    rw [hnone] at hentries
    cases hentries

/-- The names of all directories, the last one first and once more at the end. -/
def everyName : CommandLine.Arguments :=
  { directories := Part.all.reverse.map Part.name ++ ["except"], stabs := true }

/-- An image with a malformed export directory is reported with all directories, and its relocations
as those of the image without exports. -/
theorem executable_composes_malformed : ∃ e e' options options',
    Executable.parse relocated.image = .ok e ∧ Executable.parse malformed.image = .ok e' ∧
    e'.exports.toOption = none ∧ e'.relocations.isSome ∧
    everyName.options = .ok options ∧
    { everyName with directories := ["ALL"] }.options = .ok options' ∧
    executable .basic options e' = advisory e'
      ++ after .basic options.headersOnly e'
      ++ .join (Part.all.map fun p => after .basic (.only p) e')
      ++ "" ++ after .basic .stabsOnly e' ∧
    executable .basic options e' = executable .basic options' e' ∧
    after .basic (.only .relocations) e = after .basic (.only .relocations) e' := by
  obtain ⟨options, hoptions⟩ : ∃ options, everyName.options = .ok options := ⟨_, rfl⟩
  obtain ⟨htext, hall, -⟩ := executable_composes .basic malformed.executable hoptions
  obtain ⟨-, -, hframe⟩ := executable_composes .basic relocated.executable hoptions
  obtain ⟨options', hoptions', hsame⟩ := hall (by intro p; cases p <;> decide)
  refine ⟨relocated.executable, malformed.executable, options, options', ?_, ?_, ?_, ?_, hoptions,
    hoptions', htext, hsame, hframe _ _ _ differIn_malformed _ (by decide)⟩
  · exact Executable.parse_eq_ok_iff.mpr wellFormed_relocated.decodedFrom
  · exact Executable.parse_eq_ok_iff.mpr wellFormed_malformed.decodedFrom
  · decide +kernel
  · decide +kernel

end Report

end PeCoff
