import PeCoff.Image

/-!
# Files by path

A path leads from one folder to the next, and at its end to a file. The names of a path are followed
one by one, so that the first obstacle decides why a file cannot be opened: a path that goes on
behind a file is refused even if it only goes on to the file itself.
-/

namespace PeCoff.CommandLine

/-- Why a file cannot be opened. -/
inductive OpenError where
  | notFound
  | permissionDenied
  /-- The path leads to a folder, which has no contents to read. -/
  | isFolder
  /-- The path goes on behind a file. -/
  | notAFolder
  /-- The path, or one name in it, exceeds the length that the system allows. -/
  | nameTooLong
  /-- The system gave another reason. -/
  | other (reason : String)
  deriving DecidableEq, Repr

/-- What the system says about a file that cannot be opened. -/
def OpenError.message : OpenError → String
  | notFound => "No such file or directory (os error 2)"
  | permissionDenied => "Permission denied (os error 13)"
  | isFolder => "No such device (os error 19)"
  | notAFolder => "Not a directory (os error 20)"
  | nameTooLong => "File name too long (os error 36)"
  | other reason => reason

/-- A file, or a folder with its entries by name. -/
inductive FileTree where
  | file (image : Image)
  | folder (entries : List (String × FileTree))

instance : Inhabited FileTree := ⟨.folder []⟩

/-- A place in a tree of files. -/
structure Place where
  /-- What is at the place. -/
  tree : FileTree
  /-- The folders that contain the place, the innermost first. -/
  above : List FileTree

namespace Place

/-- The greatest number of bytes of a name. -/
def maxName : Nat := 255

/-- The greatest number of bytes of a path. -/
def maxPath : Nat := 4095

/-- The folder that contains the place; the outermost folder contains itself. -/
def parent (p : Place) : Place :=
  match p.above with
  | [] => p
  | tree :: above => ⟨tree, above⟩

/-- The outermost folder. -/
def root (p : Place) : Place :=
  ⟨p.above.getLastD p.tree, []⟩

/-- The place to which a name leads. A single dot, or nothing between two slashes, stays in the
folder, and two dots lead out of it. -/
def step (p : Place) (name : String) : Except OpenError Place :=
  match p.tree with
  | .file _ => .error .notAFolder
  | .folder entries =>
    if name = "" ∨ name = "." then .ok p
    else if name = ".." then .ok p.parent
    else if maxName < name.utf8ByteSize then .error .nameTooLong
    else
      match entries.lookup name with
      | none => .error .notFound
      | some tree => .ok ⟨tree, p.tree :: p.above⟩

/-- The place to which names lead, one after the other. -/
def follow (p : Place) (names : List String) : Except OpenError Place :=
  names.foldlM step p

/-- The file at a path, which starts at the outermost folder if it starts with a slash. -/
def openFile (p : Place) (path : String) : Except OpenError Image := do
  if path = "" then throw .notFound
  if maxPath < path.utf8ByteSize then throw .nameTooLong
  let names := path.splitOn "/"
  let start := if names.head? = some "" then p.root else p
  match (← start.follow names).tree with
  | .file image => return image
  | .folder _ => throw .isFolder

end Place

end PeCoff.CommandLine
