import Mathlib
import PeCoff.CommandLine.Run
import PeCoff.Proofs.Composition
import PeCoff.Proofs.Detection
import PeCoff.Proofs.Export.Coverage

/-!
# Command lines with several files

The files of a command line are independent of each other. The main statement is `run_eq_join`: what
a command line prints is what it prints for each file alone, one after the other; it fails when it
fails for one of the files, and `Fails` says when that is. A name that no directory has is refused
before any file is opened.
-/

namespace PeCoff.CommandLine

/-! ## Outcomes -/

namespace Outcome

variable {outcomes : List Outcome}

/-- The outcome of a command line without files. -/
def nothing : Outcome := ⟨0, "", ""⟩

/-- The outcome of no files changes nothing behind another outcome. -/
lemma append_nothing (a : Outcome) : a.append nothing = a := by
  rw [append, nothing, String.append_empty, String.append_empty]
  by_cases h : a.status = 0
  · rw [if_pos h, ← h]
  · rw [if_neg h]

/-- The output of all files is that of each, one behind the other. -/
lemma output_foldr : (outcomes.foldr append nothing).output =
    .join (outcomes.map output) := by
  induction outcomes with
  | nil => rfl
  | cons a outcomes ih => rw [List.foldr_cons, append, ih, List.map_cons, String.join_cons]

/-- The errors of all files are those of each, one behind the other. -/
lemma errors_foldr : (outcomes.foldr append nothing).errors =
    .join (outcomes.map errors) := by
  induction outcomes with
  | nil => rfl
  | cons a outcomes ih => rw [List.foldr_cons, append, ih, List.map_cons, String.join_cons]

/-- When each outcome has status zero or one, the status of all of them tells whether one failed. -/
lemma status_foldr (h : ∀ a ∈ outcomes, a.status = 0 ∨ a.status = 1) :
    (outcomes.foldr append nothing).status = if ∀ a ∈ outcomes, a.status = 0 then 0 else 1 := by
  induction outcomes with
  | nil => rfl
  | cons a outcomes ih =>
    rw [List.forall_mem_cons] at h
    obtain ⟨ha, hrest⟩ := h
    simp only [List.foldr_cons, append, ih hrest, List.forall_mem_cons]
    rcases ha with ha | ha
    · simp [ha]
    · simp [ha]

end Outcome

/-- The status of a file tells whether it failed. -/
lemma FileOutcome.status_outcome (o : FileOutcome) (path : String) :
    (o.outcome path).status = if o.failure.isSome then 1 else 0 := by
  rw [outcome]
  cases o.failure <;> rfl

/-! ## Failures -/

open Export (Tables)

/-- A file fails when it cannot be opened, when its kind is not known, and when it has the kind of
an image or of a debug file but not its headers. When symbols are to be listed, it also fails when
it is of another kind than an image, and when tables of its export directory are missing. -/
inductive Fails (symbolsOf : Option String) : Except OpenError Image → Prop
  | cannotOpen (error : OpenError) : Fails symbolsOf (.error error)
  | unrecognised {image : Image} (h : FileKind.detect image = .unknown) :
    Fails symbolsOf (.ok image)
  | imageHeaders {image : Image} (h : FileKind.detect image = .pe)
    (hparse : ¬ ∃ e, Executable.parse image = .ok e) :
    Fails symbolsOf (.ok image)
  | debugHeader {image : Image} (h : FileKind.detect image = .debug)
    (hparse : ¬ ∃ d, DebugFile.parse image = .ok d) :
    Fails symbolsOf (.ok image)
  | notAnImage {image : Image} (hlist : symbolsOf.isSome) (h : FileKind.detect image ≠ .pe) :
    Fails symbolsOf (.ok image)
  | missingTables {image : Image} {e : Executable} {d : Export.Directory}
    (hlist : symbolsOf.isSome) (hparse : Executable.parse image = .ok e)
    (hd : e.exportDirectory = some d) (htables : ¬ (Tables.read e.memory d).Readable) :
    Fails symbolsOf (.ok image)

variable {image : Image} {e : Executable} {path : String}

/-- Symbols are listed unless a table of the export directory is missing. -/
lemma exists_listSymbols_iff (tag : String) : (∃ text, listSymbols e tag = .ok text) ↔
    ∀ d, e.exportDirectory = some d → (Tables.read e.memory d).Readable := by
  simp only [listSymbols, bind_eq_ok_iff]
  constructor
  · rintro ⟨text, symbols, hsymbols, -⟩ d hd
    rw [Executable.exportSymbols_eq_ofDirectory hd] at hsymbols
    exact Export.Symbols.readable_of_ofDirectory hsymbols
  · intro h
    cases hd : e.exportDirectory with
    | none =>
      rw [Executable.exportSymbols, hd]
      exact ⟨_, _, rfl, rfl⟩
    | some d =>
      rw [Executable.exportSymbols_eq_ofDirectory hd, Export.Symbols.ofDirectory_eq tag (h d hd)]
      exact ⟨_, _, rfl, rfl⟩

/-- The symbols of a file are not listed exactly when the file fails. -/
lemma failure_listFile_iff {tag : String} :
    (listFile tag path image).failure.isSome ↔ Fails (some tag) (.ok image) := by
  rw [listFile]
  -- Detection, decoding and the tables are tried in turn, and each can fail in one of the ways of
  -- `Fails`.
  by_cases hkind : FileKind.detect image = .pe
  · rw [if_pos hkind]
    cases hparse : Executable.parse image with
    | error error =>
      refine iff_of_true rfl (.imageHeaders hkind ?_)
      rintro ⟨e, he⟩
      cases hparse.symm.trans he
    | ok e =>
      dsimp only
      cases hlist : listSymbols e (if tag = "" then stem path else tag) with
      | error error =>
        refine iff_of_true rfl ?_
        have htables : ¬ ∀ d, e.exportDirectory = some d → (Tables.read e.memory d).Readable := by
          rw [← exists_listSymbols_iff (if tag = "" then stem path else tag)]
          rintro ⟨text, htext⟩
          cases hlist.symm.trans htext
        push Not at htables
        obtain ⟨d, hd, htables⟩ := htables
        exact .missingTables rfl hparse hd htables
      | ok text =>
        have htables := (exists_listSymbols_iff _).mp ⟨text, hlist⟩
        refine iff_of_false Bool.false_ne_true fun hfails => ?_
        cases hfails with
        | unrecognised h => cases hkind.symm.trans h
        | imageHeaders h hnone => exact hnone ⟨e, hparse⟩
        | debugHeader h hnone => cases hkind.symm.trans h
        | notAnImage _ h => exact h hkind
        | missingTables _ he hd hmissing =>
          cases hparse.symm.trans he
          exact hmissing (htables _ hd)
  · rw [if_neg hkind]
    exact iff_of_true rfl (.notAnImage rfl hkind)

/-- A file that is only reported fails by its signature, or since it cannot be decoded as what its
signature says. -/
lemma fails_none_iff : Fails none (.ok image) ↔ FileKind.detect image = .unknown ∨
    (FileKind.detect image = .pe ∧ ¬ ∃ e, Executable.parse image = .ok e) ∨
    (FileKind.detect image = .debug ∧ ¬ ∃ d, DebugFile.parse image = .ok d) := by
  constructor
  · rintro (_ | h | ⟨h, hnone⟩ | ⟨h, hnone⟩ | ⟨⟨⟩, -⟩ | ⟨⟨⟩, -, -, -⟩)
    · exact .inl h
    · exact .inr (.inl ⟨h, hnone⟩)
    · exact .inr (.inr ⟨h, hnone⟩)
  · rintro (h | ⟨h, hnone⟩ | ⟨h, hnone⟩)
    · exact .unrecognised h
    · exact .imageHeaders h hnone
    · exact .debugHeader h hnone

/-- A file is not reported exactly when it fails. -/
lemma failure_reportFile_iff (options : Report.Options) :
    (reportFile options path image).failure.isSome ↔ Fails none (.ok image) := by
  rw [fails_none_iff, reportFile]
  cases hkind : FileKind.detect image with
  | pe => cases hparse : Executable.parse image <;> simp
  | debug => cases hparse : DebugFile.parse image <;> simp
  | unknown => simp
  | ne => simp
  | le => simp
  | dos => simp

/-- The failure of a file depends on whether symbols are listed, but not on the report asked for. -/
lemma failure_file_iff (task : Task) (path : String) (opened : Except OpenError Image) :
    (task.file path opened).failure.isSome ↔ Fails task.symbolsOf opened := by
  cases opened with
  | error error => exact iff_of_true rfl (.cannotOpen error)
  | ok image =>
    rw [Task.file]
    cases task.symbolsOf with
    | none => exact failure_reportFile_iff task.options
    | some tag => exact failure_listFile_iff

/-! ## Command lines -/

namespace Arguments

variable {a : Arguments} {task : Task} {openFile : String → Except OpenError Image}

/-- The same command line for one file alone. -/
def alone (a : Arguments) (file : String) : Arguments :=
  { a with files := [file] }

/-- All directories are selected, or only directories that there are. -/
def Valid (a : Arguments) : Prop :=
  a.all ∨ "ALL" ∈ a.directories ∨ ∀ name ∈ a.directories, ∃ p : Report.Part, p.name = name

/-- The selection is known when it is valid. -/
lemma exists_selection_iff : (∃ selection, a.selection = .ok selection) ↔ a.Valid := by
  simp only [selection_eq_ok_iff, Valid]
  split_ifs with hall hnil
  · rw [Bool.or_eq_true, List.contains_iff_mem] at hall
    exact iff_of_true ⟨_, rfl⟩ (hall.elim .inl fun h => .inr (.inl h))
  · exact iff_of_true ⟨_, rfl⟩ (.inr (.inr fun name h => by simp [hnil] at h))
  · rw [Bool.or_eq_true, List.contains_iff_mem, not_or] at hall
    rw [or_iff_right hall.1, or_iff_right hall.2]
    constructor
    · rintro ⟨selection, parts, hparts, -⟩ name hname
      rw [← hparts] at hname
      obtain ⟨p, -, hp⟩ := List.mem_map.mp hname
      exact ⟨p, hp⟩
    · intro h
      obtain ⟨parts, hparts⟩ : a.directories ∈ Set.range (List.map Report.Part.name) := by
        rw [Set.range_list_map]
        exact h
      exact ⟨_, parts, hparts, rfl⟩

/-- A task is made of the options and of the wish for symbols. -/
lemma task_eq_ok_iff : a.task = .ok task ↔
    ∃ options, a.options = .ok options ∧ task = ⟨options, a.symbolsOf⟩ := by
  rw [Arguments.task, bind_eq_ok_iff]
  constructor
  · rintro ⟨options, hoptions, ⟨⟩⟩
    exact ⟨options, hoptions, rfl⟩
  · rintro ⟨options, hoptions, rfl⟩
    exact ⟨options, hoptions, rfl⟩

/-- There is a task exactly when all parts have valid names. -/
lemma exists_task_iff : (∃ task, a.task = .ok task) ↔ a.Valid := by
  rw [← exists_selection_iff]
  constructor
  · rintro ⟨task, htask⟩
    obtain ⟨options, hoptions, -⟩ := task_eq_ok_iff.mp htask
    obtain ⟨selection, hselection, -⟩ := options_eq_ok_iff.mp hoptions
    exact ⟨selection, hselection⟩
  · rintro ⟨selection, hselection⟩
    have hoptions := options_eq_ok_iff.mpr ⟨selection, hselection, rfl⟩
    exact ⟨_, task_eq_ok_iff.mpr ⟨_, hoptions, rfl⟩⟩

/-- The wish for symbols is handed on as it is. -/
lemma symbolsOf_task (h : a.task = .ok task) : task.symbolsOf = a.symbolsOf := by
  obtain ⟨options, -, rfl⟩ := task_eq_ok_iff.mp h
  rfl

/-- The outcome for a file alone. -/
lemma run_alone (h : a.task = .ok task) (file : String) :
    (a.alone file).run openFile = (task.file file (openFile file)).outcome file := by
  have halone : (a.alone file).task = .ok task := h
  rw [run, halone]
  exact Outcome.append_nothing _

/-- The outcome is put together from those for each file alone. -/
lemma run_eq_foldr (h : a.task = .ok task) : a.run openFile =
    (a.files.map fun file => (a.alone file).run openFile).foldr Outcome.append .nothing := by
  simp only [run_alone h]
  rw [run, h]
  rfl

/-- Files are independent of each other. A command line prints what it prints for each file alone,
one after the other, and its status is zero when it is zero for each file alone, otherwise one. With
a name that no directory has, it prints nothing and its status is two. -/
theorem run_eq_join (a : Arguments) (openFile : String → Except OpenError Image) :
    (a.Valid →
      (a.run openFile).output =
        .join (a.files.map fun file => ((a.alone file).run openFile).output) ∧
      (a.run openFile).errors =
        .join (a.files.map fun file => ((a.alone file).run openFile).errors) ∧
      (a.run openFile).status =
        (if ∀ file ∈ a.files, ((a.alone file).run openFile).status = 0 then 0 else 1) ∧
      ∀ file,
        (((a.alone file).run openFile).status = 0 ↔ ¬ Fails a.symbolsOf (openFile file)) ∧
        (((a.alone file).run openFile).status = 1 ↔ Fails a.symbolsOf (openFile file))) ∧
    (¬ a.Valid → (a.run openFile).status = 2 ∧ (a.run openFile).output = "") := by
  constructor
  · intro hvalid
    obtain ⟨task, htask⟩ := exists_task_iff.mpr hvalid
    -- What a file alone answers; the run over all files folds these answers.
    have hstatus (file : String) : ((a.alone file).run openFile).status =
        if (task.file file (openFile file)).failure.isSome then 1 else 0 := by
      rw [run_alone htask, FileOutcome.status_outcome]
    refine ⟨?_, ?_, ?_, fun file => ?_⟩
    · rw [run_eq_foldr htask, Outcome.output_foldr, List.map_map]
      rfl
    · rw [run_eq_foldr htask, Outcome.errors_foldr, List.map_map]
      rfl
    · rw [run_eq_foldr htask, Outcome.status_foldr]
      · simp only [List.forall_mem_map]
      · intro o ho
        obtain ⟨file, -, rfl⟩ := List.mem_map.mp ho
        rw [hstatus]
        split_ifs
        · exact .inr rfl
        · exact .inl rfl
    · rw [hstatus, ← symbolsOf_task htask, ← failure_file_iff task file]
      split_ifs with h <;> simp [h]
  · intro hinvalid
    cases htask : a.task with
    | error unknown =>
      rw [run, htask]
      exact ⟨rfl, rfl⟩
    | ok task => exact absurd (exists_task_iff.mp ⟨task, htask⟩) hinvalid

/-- Two files: a program of an older kind, and an image that is cut off behind its signature. -/
def stubs (path : String) : Except OpenError Image :=
  if path = "old" then .ok (stubImage [78, 69, 0, 0])
  else if path = "cut" then .ok (stubImage [80, 69, 0, 0])
  else .error .notFound

/-- The reports of these files, with one between them that does not exist. -/
def threeFiles : Arguments :=
  { files := ["old", "gone", "cut"] }

/-- The first file is told to be of another kind. The others fail, the last one after its heading
was printed. With the name of no directory, nothing is printed for any of them. -/
theorem run_eq_join_stubs : (threeFiles.run stubs).status = 1 ∧
    (threeFiles.run stubs).output = "Can't dump NE executables\n" ++
      "Contents of cut: 68 bytes\n\nCan't grab the image headers, aborting\n" ∧
    ¬ Fails none (stubs "old") ∧ Fails none (stubs "gone") ∧ Fails none (stubs "cut") ∧
    ({ threeFiles with directories := ["tls", "stab"] }.run stubs).status = 2 ∧
    ({ threeFiles with directories := ["tls", "stab"] }.run stubs).output = "" := by
  -- Each file is evaluated alone, and the run over all three follows from the theorem.
  have hold : (threeFiles.alone "old").run stubs = ⟨0, "Can't dump NE executables\n", ""⟩ := by
    decide +kernel
  have hgone : ((threeFiles.alone "gone").run stubs).status = 1 ∧
      ((threeFiles.alone "gone").run stubs).output = "" := by
    decide +kernel
  have hcut : ((threeFiles.alone "cut").run stubs).status = 1 ∧
      ((threeFiles.alone "cut").run stubs).output =
        "Contents of cut: 68 bytes\n\nCan't grab the image headers, aborting\n" := by
    decide +kernel
  obtain ⟨hvalid, -⟩ := run_eq_join threeFiles stubs
  obtain ⟨houtput, -, hstatus, hfails⟩ :=
    hvalid (.inr (.inr fun name h => absurd h List.not_mem_nil))
  obtain ⟨-, hinvalid⟩ := run_eq_join { threeFiles with directories := ["tls", "stab"] } stubs
  refine ⟨?_, ?_, ?_, ?_, ?_, hinvalid ?_⟩
  · rw [hstatus, if_neg]
    intro hall
    rw [hall "gone" (by decide)] at hgone
    exact absurd hgone.1 (by decide)
  · have hfiles : threeFiles.files = ["old", "gone", "cut"] := rfl
    rw [houtput, hfiles, List.map_cons, List.map_cons, List.map_cons, List.map_nil, hold, hgone.2,
      hcut.2]
    rfl
  · exact (hfails "old").1.mp (by rw [hold])
  · exact (hfails "gone").2.mp hgone.1
  · exact (hfails "cut").2.mp hcut.1
  · rintro (hall | hmem | hnames)
    · exact absurd hall (by decide)
    · exact absurd hmem (by decide)
    · obtain ⟨p, hp⟩ := hnames "stab" (by decide)
      cases p <;> exact absurd hp (by decide)

end Arguments

end PeCoff.CommandLine
