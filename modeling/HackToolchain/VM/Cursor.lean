import HackToolchain.VM.Command

/-!
# A cursor over commands

A cursor stands before the first command at the beginning, and each advance moves it on by one.  It
may be moved past the last command; there is nothing to read there.
-/

namespace HackToolchain.VM

/-- Why a cursor has no command to read. -/
inductive CursorError where
  /-- The cursor has not been advanced yet. -/
  | notStarted
  /-- The cursor is past the last command. -/
  | pastEnd
  /-- The command lacks what was asked for. -/
  | command (error : CommandError)
  deriving DecidableEq, Repr

/-- The message of an error. -/
def CursorError.message : CursorError → String
  | .notStarted => "advance() was not called"
  | .pastEnd => "list index out of range"
  | .command error => error.message

/-- Some commands, and how often the cursor has been advanced over them. -/
structure Cursor where
  /-- The commands. -/
  commands : Array Command
  /-- The number of advances. -/
  taken : Nat := 0
  deriving Repr

namespace Cursor

/-- A cursor before the first command of a source text. -/
def ofSource (source : String) : Except CommandError Cursor :=
  (readCommands source).map fun commands => ⟨commands.toArray, 0⟩

/-- There is a command to advance to. -/
def canAdvance (cursor : Cursor) : Bool :=
  cursor.taken < cursor.commands.size

/-- The command under the cursor. -/
def current (cursor : Cursor) : Except CursorError Command :=
  match cursor.taken with
  | 0 => .error .notStarted
  | i + 1 =>
    match cursor.commands[i]? with
    | some command => .ok command
    | none => .error .pastEnd

/-- The cursor moved on by one command. -/
def advance (cursor : Cursor) : Cursor :=
  { cursor with taken := cursor.taken + 1 }

/-- The kind of the command under the cursor. -/
def kind (cursor : Cursor) : Except CursorError Kind :=
  cursor.current.map (·.kind)

/-- What the command under the cursor answers to a question. -/
def ask {α : Type} (question : Command → Except CommandError α) (cursor : Cursor) :
    Except CursorError α := do
  match question (← cursor.current) with
  | .ok value => return value
  | .error error => throw (.command error)

/-- The first argument of the command under the cursor. -/
def argument (cursor : Cursor) : Except CursorError String :=
  cursor.ask Command.argument

/-- The second argument of the command under the cursor. -/
def count (cursor : Cursor) : Except CursorError Int :=
  cursor.ask Command.count

/-- There is more exactly if a command can be read after an advance. -/
theorem canAdvance_iff (cursor : Cursor) :
    cursor.canAdvance = true ↔ ∃ c, cursor.advance.current = .ok c := by
  simp only [canAdvance, decide_eq_true_eq, current, advance]
  constructor
  · intro h
    exact ⟨cursor.commands[cursor.taken], by simp [h]⟩
  · rintro ⟨c, h⟩
    split at h
    · rename_i command hc
      exact (Array.getElem?_eq_some_iff.1 hc).1
    · contradiction

end Cursor

end HackToolchain.VM
