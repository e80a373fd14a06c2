/-!
# Report options

What a report shows: the headers, a selection of directories, and the data of sections and symbol
tables. Directories are selected by name.
-/

namespace PeCoff.Report

/-- A part of a report that can be selected by name. -/
inductive Part where
  /-- Imported libraries, then those that are loaded on first use. -/
  | imports
  | exports
  | debug
  | resources
  | threadStorage
  | commonRuntime
  | relocations
  | exceptions
  deriving DecidableEq, Repr

namespace Part

/-- The parts in the order of a report. -/
def all : List Part :=
  [imports, exports, debug, resources, threadStorage, commonRuntime, relocations, exceptions]

/-- The name by which a part is selected. -/
def name : Part → String
  | imports => "import"
  | exports => "export"
  | debug => "debug"
  | resources => "resource"
  | threadStorage => "tls"
  | commonRuntime => "clr"
  | relocations => "reloc"
  | exceptions => "except"

end Part

/-- A name by which no part is selected. -/
structure UnknownPart where
  name : String
  deriving DecidableEq, Repr

/-- What is said about an unknown name. -/
def UnknownPart.message (u : UnknownPart) : String :=
  s!"unknown section '{u.name}'"

/-- The part with a name. -/
def Part.ofName (name : String) : Except UnknownPart Part :=
  match all.find? fun part => part.name = name with
  | some part => .ok part
  | none => .error ⟨name⟩

/-- A selection of parts. -/
inductive Selection where
  | all
  | only (parts : List Part)
  deriving DecidableEq, Repr

/-- Whether a part is selected. -/
def Selection.contains : Selection → Part → Bool
  | all, _ => true
  | only parts, part => part ∈ parts

/-- What a report shows. -/
structure Options where
  /-- All headers and the section table. -/
  header : Bool := false
  /-- The directories. When there is no selection, and `header` is not set, the file header and the
  optional header are shown. -/
  selection : Option Selection := none
  /-- The data of each section after its header. -/
  rawData : Bool := false
  symbolTable : Bool := false
  stabs : Bool := false
  deriving DecidableEq, Repr

/-- All headers and all directories. -/
def Options.complete : Options :=
  { header := true, selection := some .all }

end PeCoff.Report
