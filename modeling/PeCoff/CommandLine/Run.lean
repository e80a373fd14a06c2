import PeCoff.CommandLine.Arguments
import PeCoff.CommandLine.FileTree
import PeCoff.Report.Document

/-!
# Running a command line

Each file of a command line is opened, classified and reported, or its exported symbols are listed.
A file that fails leaves one line on the error output and has no influence on the files after it;
the exit status tells whether any file failed.
-/

namespace PeCoff.CommandLine

/-- Why a file failed. -/
inductive Failure where
  | cannotOpen (path : String) (error : OpenError)
  /-- Symbols are listed for images only. -/
  | notAnImage (path : String)
  | unrecognised (path : String)
  | imageHeaders (error : DecodeError)
  | debugHeader (error : DecodeError)
  | exportSymbols (error : DecodeError)
  deriving DecidableEq, Repr

/-- What is said about a failure. -/
def Failure.message : Failure → String
  | cannotOpen path error => s!"cannot open {path}: I/O error: {error.message}: {error.message}"
  | notAnImage path => s!"{path} is not a PE image"
  | unrecognised path => s!"{path}: unrecognised file format"
  | imageHeaders error => s!"decoding image headers: {error.message}"
  | debugHeader error => s!"decoding debug file header: {error.message}"
  | exportSymbols error => s!"reading export symbols: {error.message}"

/-- What one file printed, and whether it failed. -/
structure FileOutcome where
  output : String
  failure : Option Failure
  deriving DecidableEq, Repr

/-- The name of a file without its directory and without what follows its last dot. A dot at the
front belongs to the name. -/
def stem (path : String) : String :=
  let parts := (path.splitOn "/").filter fun part => part ≠ "" ∧ part ≠ "."
  match parts.getLast? with
  | none | some ".." => ""
  | some name =>
    let cs := name.toList
    let before := (cs.reverse.dropWhile (· ≠ '.')).drop 1
    if before = [] then name else String.ofList before.reverse

/-- The line of a symbol. -/
def symbolLine (s : Export.Symbol) : String :=
  s!"{s.ordinal.toNat} {s.name}\n"

/-- The exported symbols of an image, one on each line. -/
def listSymbols (e : Executable) (tag : String) : Except DecodeError String := do
  let symbols ← e.exportSymbols tag
  return String.join (symbols.pending.map symbolLine)

/-- Lists the exported symbols of a file under a tag, or under its own name. -/
def listFile (tag path : String) (image : Image) : FileOutcome :=
  if FileKind.detect image = .pe then
    match Executable.parse image with
    | .error error => ⟨"", some (.imageHeaders error)⟩
    | .ok e =>
      match listSymbols e (if tag = "" then stem path else tag) with
      | .error error => ⟨"", some (.exportSymbols error)⟩
      | .ok text => ⟨text, none⟩
  else
    ⟨"", some (.notAnImage path)⟩

/-- The line above a report. -/
def heading (path : String) (image : Image) : String :=
  s!"Contents of {path}: {image.size} bytes\n\n"

/-- Reports a file. -/
def reportFile (options : Report.Options) (path : String) (image : Image) : FileOutcome :=
  match FileKind.detect image with
  | .pe =>
    match Executable.parse image with
    | .ok e => ⟨heading path image ++ Report.executable .basic options e, none⟩
    | .error error =>
      ⟨heading path image ++ Report.headerFailure error, some (.imageHeaders error)⟩
  | .debug =>
    match DebugFile.parse image with
    | .ok d => ⟨heading path image ++ Report.debugFile .basic options d, none⟩
    | .error error =>
      ⟨heading path image ++ Report.headerFailure error, some (.debugHeader error)⟩
  | .unknown => ⟨"", some (.unrecognised path)⟩
  | kind => ⟨s!"Can't dump {kind.name} executables\n", none⟩

/-- What is to be done with each file. -/
structure Task where
  options : Report.Options
  /-- Lists symbols under a tag instead of reporting. -/
  symbolsOf : Option String
  deriving DecidableEq, Repr

/-- Does what is to be done with a file that was opened, or could not be. -/
def Task.file (task : Task) (path : String) (opened : Except OpenError Image) : FileOutcome :=
  match opened with
  | .error error => ⟨"", some (.cannotOpen path error)⟩
  | .ok image =>
    match task.symbolsOf with
    | some tag => listFile tag path image
    | none => reportFile task.options path image

/-- What a command line printed, and its exit status. -/
structure Outcome where
  status : UInt8
  output : String
  errors : String
  deriving DecidableEq, Repr

/-- The outcome of a command line with one file. -/
def FileOutcome.outcome (path : String) (o : FileOutcome) : Outcome :=
  match o.failure with
  | none => ⟨0, o.output, ""⟩
  | some failure => ⟨1, o.output, s!"{path}: {failure.message}\n"⟩

/-- One outcome after another. The exit status is that of a failure if there is one. -/
def Outcome.append (a b : Outcome) : Outcome :=
  ⟨if a.status = 0 then b.status else a.status, a.output ++ b.output, a.errors ++ b.errors⟩

/-- The outcome of a command line that names a directory that does not exist. -/
def Outcome.unknownPart (unknown : Report.UnknownPart) : Outcome :=
  ⟨2, "", s!"error: {unknown.message}\n"⟩

/-- What is to be done with the files of a command line. -/
def Arguments.task (a : Arguments) : Except Report.UnknownPart Task := do
  return ⟨← a.options, a.symbolsOf⟩

/-- The outcome of arguments, given how files are opened. -/
def Arguments.run (a : Arguments) (openFile : String → Except OpenError Image) : Outcome :=
  match a.task with
  | .error unknown => .unknownPart unknown
  | .ok task =>
    (a.files.map fun path => (task.file path (openFile path)).outcome path).foldr
      Outcome.append ⟨0, "", ""⟩

end PeCoff.CommandLine
