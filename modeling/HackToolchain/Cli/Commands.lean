import HackToolchain.Cli.Compile
import HackToolchain.Cli.Golden

/-!
# Commands

The commands by their names, and what is left of a session when one of them has ended.
-/

namespace HackToolchain.Cli

/-- A command, as a function of its arguments. -/
abbrev Command := List String → Session.Action Unit

/-- The command with the given name. -/
def Command.ofName? : String → Option Command
  | "compile" => some Compile.command
  | "simulate" => some Simulate.command
  | "golden" => some Golden.command
  | _ => none

/-- How a command has ended. -/
inductive Ending where
  /-- With an exit code. -/
  | exit (code : Nat)
  /-- With a failure that it did not handle. -/
  | failure (cause : Failure)
  deriving DecidableEq, Repr

/-- Runs a command. -/
def Command.run (command : Command) (arguments : List String) (s : Session) : Ending × Session :=
  match command arguments s with
  | .ok _ s => (.exit 0, s)
  | .error (.exit code) s => (.exit code, s)
  | .error (.failure cause) s => (.failure cause, s)

end HackToolchain.Cli
