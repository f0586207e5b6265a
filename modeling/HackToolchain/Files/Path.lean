/-!
# Paths

The text of a path and its parts.  Empty parts and single dots mean nothing and are dropped; double
dots are kept.  A path that starts with a slash is absolute, and one that starts with exactly two
slashes keeps both.

Whoever follows a path may still ask for more than `Path.ofText` keeps: a single dot and a slash at
the end stand for the directory before them, and there has to be one.  `Path.exact` keeps them.

The last part of a path is its name.  The suffix of a name starts at its last dot, unless that is
its first or its last character; what stands before the suffix is the stem.
-/

namespace HackToolchain.Files

/-- A path. -/
structure Path where
  /-- The slashes of an absolute path; empty for a relative one. -/
  root : String
  /-- The parts. -/
  parts : List String
  deriving DecidableEq, Repr

namespace Path

/-- Splits the rest of a text at slashes; `part` is the part under way, last character first. -/
def splitSlashes.go : List Char → List Char → List (List Char)
  | [], part => [part.reverse]
  | c :: cs, part =>
    if c = '/' then part.reverse :: splitSlashes.go cs [] else splitSlashes.go cs (c :: part)

/-- The parts of a text between slashes, empty ones included. -/
def splitSlashes (cs : List Char) : List (List Char) :=
  splitSlashes.go cs []

/-- The slashes that make a path absolute. -/
def rootOf : List Char → String
  | '/' :: '/' :: '/' :: _ => "/"
  | '/' :: '/' :: _ => "//"
  | '/' :: _ => "/"
  | _ => ""

/-- The path with the given text. -/
def ofText (text : String) : Path where
  root := rootOf text.toList
  parts := ((splitSlashes text.toList).filter fun part => part != [] && part != ['.']).map
    String.ofList

/-- The path with the given text, single dots included; a slash at the end gives an empty last
part. -/
def exact (text : String) : Path where
  root := rootOf text.toList
  parts :=
    let parts := ((splitSlashes text.toList).filter (· != [])).map String.ofList
    if text.toList.getLast? == some '/' then parts ++ [""] else parts

/-- The text of a path. -/
def text (path : Path) : String :=
  if path.root.isEmpty && path.parts.isEmpty then "."
  else path.root ++ "/".intercalate path.parts

/-- The path of a place in a tree. -/
def absolute (location : List String) : Path where
  root := "/"
  parts := location

/-- The path is absolute. -/
def isAbsolute (path : Path) : Bool :=
  !path.root.isEmpty

/-- The last part; empty if there is none. -/
def name (path : Path) : String :=
  path.parts.getLast?.getD ""

/-- The stem and the suffix of a name. -/
def splitName (name : List Char) : List Char × List Char :=
  let extension := (name.reverse.takeWhile (· != '.')).reverse
  let stem := name.take (name.length - extension.length - 1)
  if extension.isEmpty || stem.isEmpty then (name, []) else (stem, '.' :: extension)

/-- The name without its suffix. -/
def stem (path : Path) : String :=
  String.ofList (splitName path.name.toList).1

/-- The suffix of the name, with its dot; empty if there is none. -/
def suffix (path : Path) : String :=
  String.ofList (splitName path.name.toList).2

/-- The path with another last part. -/
def withName (path : Path) (name : String) : Path :=
  { path with parts := path.parts.dropLast ++ [name] }

/-- The path with another suffix. -/
def withSuffix (path : Path) (suffix : String) : Path :=
  path.withName (path.stem ++ suffix)

/-- The path of an entry of a directory. -/
def child (path : Path) (name : String) : Path :=
  { path with parts := path.parts ++ [name] }

/-- A path as seen from a directory; an absolute path is itself. -/
def join (directory path : Path) : Path :=
  if path.isAbsolute then path else { directory with parts := directory.parts ++ path.parts }

/-- Drops each double dot together with the part before it; `kept` holds the parts before, last
part first. -/
def dropParents.go : List String → List String → List String
  | [], kept => kept.reverse
  | part :: parts, kept =>
    if part = ".." then dropParents.go parts kept.tail else dropParents.go parts (part :: kept)

/-- The path without double dots, as an absolute path. -/
def dropParents (path : Path) : Path where
  root := "/"
  parts := dropParents.go path.parts []

end Path

end HackToolchain.Files
