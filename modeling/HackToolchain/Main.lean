import HackToolchain.Cli.Commands
import HackToolchain.Files.Changes

/-!
# The program

The first argument names the command, and the others are its arguments.

The files that the command may use are named on the standard input, one on a line, as `find` prints
them; a name that ends in a slash is a directory.  They are read before the command runs, and what
it has changed is written back afterwards.
-/

namespace HackToolchain.Program

open HackToolchain.Cli HackToolchain.Files

/-- Reads the lines of a stream that are not empty. -/
partial def readNames (input : IO.FS.Stream) (names : Array String) : IO (Array String) := do
  let line ← input.getLine
  if line.isEmpty then return names
  let name := (line.dropEndWhile (· == '\n')).toString
  readNames input (if name.isEmpty then names else names.push name)

/-- The tree with what a name stands for, as seen from a directory. -/
def load (directory : Files.Path) (tree : Files.Tree) (name : String) : IO Files.Tree := do
  let location := (directory.join (Files.Path.ofText name)).dropParents.parts
  let added ←
    if name.endsWith "/" then pure (tree.makeDirectories location)
    else do
      let content ← IO.FS.readBinFile name
      pure (tree.addFile location content)
  match added with
  | .ok tree => return tree
  | .error fault => throw (IO.userError (FileError.mk fault name).message)

/-- The text of the path to a location. -/
def pathText (location : Location) : String :=
  (Files.Path.absolute location).text

/-- Writes back what has changed. -/
def store (before after : Files.Tree) : IO Unit := do
  for location in before.removed after [] do
    IO.FS.removeFile (pathText location)
  for file in before.written after [] do
    IO.FS.createDirAll (pathText file.1.dropLast)
    IO.FS.writeBinFile (pathText file.1) file.2

/-- Runs a command on the files named on the standard input. -/
def run (command : Command) (arguments : List String) : IO UInt32 := do
  let directory := Files.Path.ofText ((← IO.getEnv "PWD").getD "/")
  let names ← readNames (← IO.getStdin) #[]
  -- the directory is there, even if no file in it is named
  let start ← match (⟨[]⟩ : Files.Tree).makeDirectories directory.parts with
    | .ok tree => pure tree
    | .error _ => pure ⟨[]⟩
  let tree ← names.foldlM (load directory) start
  let (ending, s) := command.run arguments { tree, directory := directory.parts }
  store tree s.tree
  IO.print s.out
  IO.eprint s.err
  match ending with
  | .exit code => return code.toUInt32
  | .failure cause => do
    IO.eprintln cause.message
    return 1

end HackToolchain.Program

/-- The program. -/
def main (arguments : List String) : IO UInt32 := do
  match arguments with
  | [] => do
    IO.eprintln "usage: compile | simulate | golden, and the arguments of the command"
    return 2
  | name :: rest =>
    match HackToolchain.Cli.Command.ofName? name with
    | some command => HackToolchain.Program.run command rest
    | none => do
      IO.eprintln ("no such command: " ++ name)
      return 2
