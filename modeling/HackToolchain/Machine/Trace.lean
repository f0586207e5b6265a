import HackToolchain.Machine.Processor

/-!
# Traces

A trace has a line for each tick that shows the state before it: tick, program counter, the
instruction to come, the registers, and the first three cells of memory.  Reading these cells grows
a smaller memory.
-/

namespace HackToolchain.Machine

open HackToolchain.Asm

namespace Computer

/-- The text of the instruction at an address, or a dash past the end of the program. -/
def instructionText (c : Computer) (pc : Int) : Except Fault String :=
  if c.isPastEnd pc then .ok "-"
  else
    match c.fetch? pc with
    | none => .error (.romRead pc)
    | some word => .ok (Word.disassemble word)

/-- The line that shows a state. -/
def stateLine (text : String) (s : State) : String :=
  let cell (i : Nat) : String := toString (s.data.ram.get i)
  "t=" ++ toString s.tick ++ " pc=" ++ toString s.pc ++ " ir=" ++ text ++
    " A=" ++ toString s.data.a ++ " D=" ++ toString (Word.signed s.data.d) ++
    " SP=" ++ cell 0 ++ " LCL=" ++ cell 1 ++ " ARG=" ++ cell 2 ++ "\n"

/-- The state with at least enough memory for the cells that a trace shows. -/
def growForTrace : State → State
  | ⟨⟨a, d, out, zr, ng, ram⟩, pc, ir, tick, halted, lastFetch⟩ =>
    ⟨⟨a, d, out, zr, ng, ram.grow 2⟩, pc, ir, tick, halted, lastFetch⟩

/-- The trace line of a state, and the state after the memory has been read. -/
def showNext (c : Computer) (s : State) : Except Fault String × State :=
  match c.instructionText s.pc with
  | .error cause => (.error cause, s)
  | .ok text => (.ok (stateLine text s), growForTrace s)

/-- At most `n` ticks, each with its trace line, behind the trace `trace`. -/
def runTracedFor (c : Computer) : Nat → String → State → String × Outcome State
  | 0, trace, s => (trace, .ok s)
  | n + 1, trace, s =>
    if c.isDone s then (trace, .ok s)
    else
      match c.showNext s with
      | (.error cause, s) => (trace, .fault cause s)
      | (.ok line, s) =>
        let trace := trace ++ line
        match c.step s with
        | .ok s => runTracedFor c n trace s
        | .fault cause s => (trace, .fault cause s)

/-- A run with its trace. -/
def runTraced (c : Computer) (s : State) : String × Outcome State :=
  c.runTracedFor (c.ticksLeft s) "" s

end Computer

end HackToolchain.Machine
