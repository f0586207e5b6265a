import HackToolchain.Files.Path
import HackToolchain.Text.Quoted

/-!
# File trees

A tree of files and directories, as a list of locations with what is there.  A location is the list
of the names on the way to it; the empty one is the root, which is always a directory.

A path is followed part by part: every part but the last must lead to a directory, a double dot
leads back, and a single dot or an empty part leads nowhere else.  Reading and writing fail with a
cause that depends on what the path leads to.  The text of a path has less than 4096 bytes, and a
name in it no more than 255.
-/

namespace HackToolchain.Files

open HackToolchain.Text

/-- The names on the way to a place in a tree. -/
abbrev Location := List String

/-- What can be at a place. -/
inductive Node where
  /-- A file with its content. -/
  | file (content : ByteArray)
  /-- A directory. -/
  | directory

/-! ### Errors -/

/-- Why a file or a directory cannot be used. -/
inductive FileFault where
  /-- There is nothing. -/
  | notFound
  /-- There is something already. -/
  | occupied
  /-- There is a file where a directory is needed. -/
  | notDirectory
  /-- There is a directory where a file is needed. -/
  | isDirectory
  /-- The path or a name in it is too long. -/
  | nameTooLong
  /-- The path has a character that no path can have. -/
  | nulCharacter
  deriving DecidableEq, Repr

/-- The wording of a fault, with its number if it has one. -/
def FileFault.message : FileFault → String
  | .notFound => "[Errno 2] No such file or directory"
  | .occupied => "[Errno 17] File exists"
  | .notDirectory => "[Errno 20] Not a directory"
  | .isDirectory => "[Errno 21] Is a directory"
  | .nameTooLong => "[Errno 36] File name too long"
  | .nulCharacter => "embedded null byte"

/-- A fault and the path, as it was given, that led to it. -/
structure FileError where
  /-- The fault. -/
  fault : FileFault
  /-- The text of the path. -/
  path : String
  deriving DecidableEq, Repr

/-- The message of an error; a path that cannot be one is not shown. -/
def FileError.message (error : FileError) : String :=
  if error.fault = .nulCharacter then error.fault.message
  else error.fault.message ++ ": " ++ quote error.path

/-! ### Trees -/

/-- A tree of files and directories. -/
structure Tree where
  /-- What is where, apart from the root. -/
  entries : List (Location × Node)

namespace Tree

/-- What is at a location. -/
def lookup (tree : Tree) (location : Location) : Option Node :=
  if location = [] then some .directory else tree.entries.lookup location

/-- The tree with something at a location, in place of what was there. -/
def set (tree : Tree) (location : Location) (node : Node) : Tree where
  entries := (location, node) :: tree.entries.filter (·.1 != location)

/-- The tree without a location and all below it. -/
def erase (tree : Tree) (location : Location) : Tree where
  entries := tree.entries.filter fun entry => !location.isPrefixOf entry.1

/-- The names in a directory, with what they name. -/
def children (tree : Tree) (location : Location) : List (String × Node) :=
  tree.entries.filterMap fun entry =>
    match entry.1.getLast? with
    | some name => if entry.1.dropLast = location then some (name, entry.2) else none
    | none => none

/-- What is below a location, with the names on the way from there. -/
def below (tree : Tree) (location : Location) : List (Location × Node) :=
  tree.entries.filterMap fun entry =>
    if location.isPrefixOf entry.1 && location.length < entry.1.length then
      some (entry.1.drop location.length, entry.2)
    else none

/-! ### Following paths -/

/-- The bytes of the longest name. -/
def maxNameBytes : Nat := 255

/-- The least number of bytes that are too many for a path. -/
def pathBytes : Nat := 4096

/-- Where a part of a path leads from a directory. -/
def enter (here : Location) (part : String) : Location :=
  if part = ".." then here.dropLast
  else if part = "." ∨ part = "" then here
  else here ++ [part]

/-- Follows the parts of a path from a location. -/
def follow (tree : Tree) : Location → List String → Except FileFault Location
  | here, [] => .ok here
  | here, part :: parts =>
    match tree.lookup here with
    | none => .error .notFound
    | some (.file _) => .error .notDirectory
    | some .directory =>
      if maxNameBytes < part.utf8ByteSize then .error .nameTooLong
      else tree.follow (enter here part) parts

/-- The text holds the character that no path can have. -/
def hasNul (text : String) : Bool :=
  text.toList.contains '\x00'

/-- What is wrong with the text of a path, whatever it leads to. -/
def textFault? (path : Path) : Option FileFault :=
  if hasNul path.text then some .nulCharacter
  else if pathBytes ≤ path.text.utf8ByteSize then some .nameTooLong
  else none

/-- Where the parts of a path are followed from. -/
def origin (directory : Location) (path : Path) : Location :=
  if path.isAbsolute then [] else directory

/-- The location that a path leads to from a directory, whether or not there is anything. -/
def locate (tree : Tree) (directory : Location) (path : Path) : Except FileFault Location :=
  match textFault? path with
  | some fault => .error fault
  | none => tree.follow (origin directory path) path.parts

/-- What a path leads to from a directory.  A path that cannot be followed leads to nothing, unless
it is too long to say so. -/
def node? (tree : Tree) (directory : Location) (path : Path) : Except FileFault (Option Node) :=
  match tree.locate directory path with
  | .ok location => .ok (tree.lookup location)
  | .error .nameTooLong => .error .nameTooLong
  | .error _ => .ok none

/-- A path leads to a directory. -/
def isDirectory (tree : Tree) (directory : Location) (path : Path) : Except FileFault Bool :=
  (tree.node? directory path).map fun
    | some .directory => true
    | _ => false

/-! ### Reading and writing -/

/-- The content of the file that a path leads to. -/
def read (tree : Tree) (directory : Location) (path : Path) : Except FileFault ByteArray := do
  let location ← tree.locate directory path
  match tree.lookup location with
  | none => throw .notFound
  | some .directory => throw .isDirectory
  | some (.file content) => return content

/-- The location of the file that a path leads to, for writing.  A slash at the end asks for a
directory, whatever there is. -/
def locateTarget (tree : Tree) (directory : Location) (path : Path) : Except FileFault Location :=
  match textFault? path with
  | some fault => .error fault
  | none =>
    if path.parts.getLast? = some "" then do
      -- the name in front of the slash does not matter, but where it would be has to be there
      let _ ← tree.follow (origin directory path) (path.parts.dropLast.dropLast ++ ["."])
      throw .isDirectory
    else tree.follow (origin directory path) path.parts

/-- The tree with another content of the file that a path leads to; there need not be a file, but
there must not be a directory. -/
def write (tree : Tree) (directory : Location) (path : Path) (content : ByteArray) :
    Except FileFault Tree := do
  let location ← tree.locateTarget directory path
  match tree.lookup location with
  | some .directory => throw .isDirectory
  | _ => return tree.set location (.file content)

/-- Directories could not be made on the way to a location. -/
structure Stopped where
  /-- The tree with the directories made so far. -/
  tree : Tree
  /-- The location that is reported. -/
  location : Location
  /-- What is wrong with it. -/
  fault : FileFault

/-- The tree with a directory at a location and at all locations on the way to it. -/
def ensureDirectories (tree : Tree) (location : Location) : Except Stopped Tree :=
  if pathBytes ≤ (Path.absolute location).text.utf8ByteSize then
    .error ⟨tree, location, .nameTooLong⟩
  else go location tree ((List.range location.length).map fun n => location.take (n + 1))
where
  /-- Makes the directories at the given locations, each of which is inside the one before.  The
  whole location is asked for first, and reported; once one directory is made, the next one is. -/
  go (reported : Location) (tree : Tree) : List Location → Except Stopped Tree
    | [] => .ok tree
    | here :: rest =>
      match tree.lookup here with
      | some .directory => go reported tree rest
      | some (.file _) =>
        .error ⟨tree, reported, if rest.isEmpty then .occupied else .notDirectory⟩
      | none =>
        if maxNameBytes < (here.getLast?.getD "").utf8ByteSize then
          .error ⟨tree, reported, .nameTooLong⟩
        else go (rest.headD here) (tree.set here .directory) rest

/-- The tree with a copy of a directory at another location. -/
def copy (tree : Tree) (source target : Location) : Tree :=
  (tree.below source).foldl (fun tree entry => tree.set (target ++ entry.1) entry.2)
    (tree.set target .directory)

/-! ### What a tree holds -/

theorem lookup_set_self (tree : Tree) {location : Location} (h : location ≠ []) (node : Node) :
    (tree.set location node).lookup location = some node := by
  simp [lookup, set, h]

theorem lookup_set_of_ne (tree : Tree) {location other : Location} (h : other ≠ location)
    (node : Node) : (tree.set location node).lookup other = tree.lookup other := by
  have hne : (other == location) = false := by simpa using h
  have hfilter : ∀ entries : List (Location × Node),
      (entries.filter (·.1 != location)).lookup other = entries.lookup other := by
    intro entries
    induction entries with
    | nil => rfl
    | cons entry entries ih =>
      obtain ⟨key, value⟩ := entry
      by_cases hk : key = location
      · subst hk
        simp [List.lookup_cons, hne, ih]
      · simp [hk, List.lookup_cons, ih]
  simp only [lookup, set, List.lookup_cons, hne, hfilter]

end Tree

end HackToolchain.Files
