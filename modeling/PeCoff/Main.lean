import PeCoff.CommandLine.Run

/-!
# The program

Reports the files of its command line. Files are opened, reported and forgotten one after the other.
-/

namespace PeCoff.CommandLine

/-- How the program is called. -/
def usage : String :=
  "usage: [-f] [-j NAME]... [-x] [-d] [-t] [-G] [-v]... [--symbols-of [TAG]] FILE...\n"

/-- Why the system does not open a file. -/
def openErrorOf : IO.Error → OpenError
  | .noFileOrDirectory .. => .notFound
  | .permissionDenied .. => .permissionDenied
  | .inappropriateType _ 21 _ => .isFolder
  | .inappropriateType .. => .notAFolder
  | .invalidArgument _ _ "name too long" => .nameTooLong
  | error => .other (toString error)

/-- Opens a file. -/
def openImage (path : String) : IO (Except OpenError Image) := do
  try
    return .ok ⟨← IO.FS.readBinFile path⟩
  catch error =>
    return .error (openErrorOf error)

/-- Prints an outcome. -/
def emit (o : Outcome) : IO Unit := do
  (← IO.getStdout).putStr o.output
  (← IO.getStdout).flush
  (← IO.getStderr).putStr o.errors

/-- Reports each file and gives the exit status. -/
def reportAll (task : Task) (files : List String) : IO UInt32 := do
  let mut status := 0
  for path in files do
    let outcome := (task.file path (← openImage path)).outcome path
    emit outcome
    if outcome.status ≠ 0 then status := 1
  return status

end PeCoff.CommandLine

open PeCoff.CommandLine in
/-- Runs a command line. -/
def main (arguments : List String) : IO UInt32 := do
  match Arguments.parse? arguments with
  | none =>
    (← IO.getStderr).putStr usage
    return 2
  | some a =>
    match a.task with
    | .ok task => reportAll task a.files
    | .error unknown =>
      let outcome := Outcome.unknownPart unknown
      emit outcome
      return outcome.status.toUInt32
