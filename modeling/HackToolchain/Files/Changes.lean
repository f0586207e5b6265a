import HackToolchain.Files.Tree

/-!
# Changes of a tree

What a command has done to the files below a location: which files it has written, and which it has
removed.
-/

namespace HackToolchain.Files.Tree

/-- The files below a location, by the names on the way from there. -/
def files (tree : Tree) (location : Location) : List (Location × ByteArray) :=
  (tree.below location).filterMap fun entry =>
    match entry.2 with
    | .file content => some (entry.1, content)
    | .directory => none

/-- The files below a location that are new, or have another content than before. -/
def written (before after : Tree) (location : Location) : List (Location × ByteArray) :=
  let old := before.files location
  (after.files location).filter fun file => old.lookup file.1 != some file.2

/-- The files below a location that are gone. -/
def removed (before after : Tree) (location : Location) : List Location :=
  let new := after.files location
  ((before.files location).filter fun file => (new.lookup file.1).isNone).map (·.1)

/-- The tree with a directory, and those on the way to it. -/
def makeDirectories (tree : Tree) (location : Location) : Except FileFault Tree :=
  (tree.ensureDirectories location).mapError (·.fault)

/-- The tree with a file, and the directories on the way to it. -/
def addFile (tree : Tree) (location : Location) (content : ByteArray) : Except FileFault Tree := do
  let tree ← tree.makeDirectories location.dropLast
  return tree.set location (.file content)

end HackToolchain.Files.Tree
