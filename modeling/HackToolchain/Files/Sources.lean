import HackToolchain.Files.Tree

/-!
# Source files of a program

A program is one source file, or a directory and all source files right inside it, in the order of
their names.  By default its code goes next to the source file, or into the directory under the
name of that.
-/

namespace HackToolchain.Files

/-- The suffix of source files. -/
def sourceSuffix : String := ".vm"

/-- The suffix of code files. -/
def codeSuffix : String := ".asm"

/-- The source files of a program, and where its code goes. -/
structure Sources where
  /-- The source files, in order. -/
  files : List Path
  /-- The file for the code, if no other is asked for. -/
  output : Path
  /-- The program is a directory. -/
  isDirectory : Bool
  deriving DecidableEq, Repr

/-- Why a path is no program. -/
inductive SourcesError where
  /-- The directory holds no source files. -/
  | empty (directory : Path)
  /-- The path is neither a source file nor a directory. -/
  | notSource (path : Path)
  /-- The path cannot be looked at. -/
  | file (error : FileError)
  deriving DecidableEq, Repr

/-- The message of an error. -/
def SourcesError.message : SourcesError → String
  | .empty directory => "no " ++ sourceSuffix ++ " files in directory " ++ directory.text
  | .notSource path => "expected " ++ sourceSuffix ++ " file or directory, got " ++ path.text
  | .file error => error.message

namespace Tree

/-- The names of the source files right inside a directory, in ascending order. -/
def sourceNames (tree : Tree) (location : Location) : List String :=
  let names := (tree.children location).filterMap fun (name, node) =>
    match node with
    | .file _ => if (Path.mk "" [name]).suffix = sourceSuffix then some name else none
    | .directory => none
  names.mergeSort fun a b => !(b < a : Bool)

/-- The source files of the program that a path leads to from a directory. -/
def sources (tree : Tree) (directory : Location) (path : Path) : Except SourcesError Sources :=
  match tree.isDirectory directory path, tree.locate directory path with
  | .error fault, _ => .error (.file ⟨fault, path.text⟩)
  | .ok true, .ok location =>
    match tree.sourceNames location with
    | [] => .error (.empty path)
    | names => .ok ⟨names.map path.child, path.child (path.name ++ codeSuffix), true⟩
  | .ok _, _ =>
    if path.suffix = sourceSuffix then .ok ⟨[path], path.withSuffix codeSuffix, false⟩
    else .error (.notSource path)

end Tree

end HackToolchain.Files
