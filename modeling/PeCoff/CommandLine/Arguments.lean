import PeCoff.Report.Options

/-!
# Command line arguments

Arguments that start with a dash are options, by a long name or by single letters that may be put
together. The value of an option follows it, in the same argument or the next. After a double dash
everything is a file. An option may be given once, unless it counts or collects.
-/

namespace PeCoff.CommandLine

/-- What a command line asks for. -/
structure Arguments where
  files : List String := []
  header : Bool := false
  /-- The names of the selected directories, in the order given. -/
  directories : List String := []
  all : Bool := false
  rawData : Bool := false
  symbols : Bool := false
  stabs : Bool := false
  /-- Lists exported symbols under a tag; an empty tag stands for the name of each file. -/
  symbolsOf : Option String := none
  verbosity : Nat := 0
  deriving DecidableEq, Repr

/-- What an argument does that starts with a dash. -/
inductive Flag where
  | header
  | all
  | rawData
  | symbols
  | stabs
  | verbose
  /-- Needs a value. -/
  | directory
  /-- May have a value. -/
  | symbolsOf
  deriving DecidableEq, Repr

namespace Flag

/-- The flag with a long name. -/
def ofName? (name : String) : Option Flag :=
  [("header", header), ("section", directory), ("all", all), ("raw-data", rawData),
    ("symbols", symbols), ("stabs", stabs), ("symbols-of", symbolsOf),
    ("verbose", verbose)].lookup name

/-- The flag with a letter. -/
def ofLetter? (letter : Char) : Option Flag :=
  [('f', header), ('j', directory), ('x', all), ('d', rawData), ('t', symbols), ('G', stabs),
    ('v', verbose)].lookup letter

/-- Whether the flag can have a value. -/
def takesValue : Flag → Bool
  | directory | symbolsOf => true
  | _ => false

end Flag

namespace Arguments

/-- The effect of a flag without a value; it is refused the second time. -/
def set (a : Arguments) : Flag → Option Arguments
  | .header => if a.header then none else some { a with header := true }
  | .all => if a.all then none else some { a with all := true }
  | .rawData => if a.rawData then none else some { a with rawData := true }
  | .symbols => if a.symbols then none else some { a with symbols := true }
  | .stabs => if a.stabs then none else some { a with stabs := true }
  | .verbose => some { a with verbosity := a.verbosity + 1 }
  | .symbolsOf => if a.symbolsOf.isSome then none else some { a with symbolsOf := some "" }
  | .directory => none

/-- The effect of a flag with a value. -/
def setValue (a : Arguments) (flag : Flag) (value : String) : Option Arguments :=
  match flag with
  | .directory => some { a with directories := a.directories ++ [value] }
  | .symbolsOf => if a.symbolsOf.isSome then none else some { a with symbolsOf := some value }
  | _ => none

/-- The effect of a file; its name must not be empty. -/
def addFile (a : Arguments) (file : String) : Option Arguments :=
  if file = "" then none else some { a with files := a.files ++ [file] }

/-- The effect of the files after a double dash. -/
def addFiles (a : Arguments) (files : List String) : Option Arguments :=
  files.foldlM addFile a

/-- The effect of letters after a single dash. A letter whose flag can have a value takes the rest
for it, without an equals sign in front; the flag is handed back when there is no rest. -/
def setLetters (a : Arguments) : List Char → Option (Arguments × Option Flag)
  | [] => some (a, none)
  | c :: rest => do
    let flag ← Flag.ofLetter? c
    if flag.takesValue then
      match rest with
      | [] => return (a, some flag)
      | '=' :: value => return (← a.setValue flag (String.ofList value), none)
      | value => return (← a.setValue flag (String.ofList value), none)
    else
      setLetters (← a.set flag) rest

/-- The effect of a long name, with a value after an equals sign if there is one. A flag that can
have a value but was given none is handed back. -/
def setLong (a : Arguments) (cs : List Char) : Option (Arguments × Option Flag) := do
  let flag ← Flag.ofName? (String.ofList (cs.takeWhile (· ≠ '=')))
  match cs.dropWhile (· ≠ '=') with
  | [] => if flag.takesValue then return (a, some flag) else return (← a.set flag, none)
  | _ :: value => return (← a.setValue flag (String.ofList value), none)

/-- Whether an argument is neither an option nor a double dash; a single dash is not. -/
def isValue (argument : String) : Bool :=
  match argument.toList with
  | '-' :: _ :: _ => false
  | _ => true

/-- The effect of a flag that got no value. -/
def settle (a : Arguments) (waiting : Option Flag) : Option Arguments :=
  match waiting with
  | none => some a
  | some flag => a.set flag

/-- The effect of arguments, of which the first may be the value that a flag waits for. -/
def parseFrom (a : Arguments) (waiting : Option Flag) : List String → Option Arguments
  | [] => a.settle waiting
  | argument :: rest =>
    if isValue argument then
      let next :=
        match waiting with
        | some flag => a.setValue flag argument
        | none => a.addFile argument
      next.bind fun a => parseFrom a none rest
    else
      (a.settle waiting).bind fun a =>
        match argument.toList.drop 1 with
        | ['-'] => a.addFiles rest
        | '-' :: name => (a.setLong name).bind fun (a, waiting) => parseFrom a waiting rest
        | letters => (a.setLetters letters).bind fun (a, waiting) => parseFrom a waiting rest

/-- What a command line asks for, unless it is refused. There must be a file. -/
def parse? (arguments : List String) : Option Arguments := do
  let a ← parseFrom {} none arguments
  guard (a.files ≠ [])
  return a

/-- The selected parts. The complete report and the name `ALL` select every part. -/
def selection (a : Arguments) : Except Report.UnknownPart (Option Report.Selection) :=
  if a.all || a.directories.contains "ALL" then .ok (some .all)
  else if a.directories = [] then .ok none
  else do return some (.only (← a.directories.mapM Report.Part.ofName))

/-- What the reports show. -/
def options (a : Arguments) : Except Report.UnknownPart Report.Options := do
  return {
    header := a.header || a.all
    selection := ← a.selection
    rawData := a.rawData
    symbolTable := a.symbols
    stabs := a.stabs }

end Arguments

end PeCoff.CommandLine
