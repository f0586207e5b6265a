import HackToolchain.Machine.Trace
import HackToolchain.Proofs.Asm.Disassembly
import HackToolchain.Proofs.Machine.MemorySize
import HackToolchain.Proofs.Machine.ScheduledWrites

/-!
# A trace only observes

A trace reads the first three cells of the memory before each tick, and so grows a memory that does
not have them.  Growing commutes with all that a machine does, so that it might as well be done once
and in the end.

* `next_growForTrace`: a step from a memory that has been grown leads to the state to which it leads
  without, with the memory grown then;
* `exists_shows`: every sound state has its line, in which no line ends;
* `runTracedFor_eq`: a run with a trace makes the steps of one without, and writes a line for each.
-/

namespace HackToolchain.Machine

open Asm Text

/-! ### Memories that are grown -/

namespace Ram

variable (ram : Ram) (i j : Nat)

theorem grow_grow_self : (ram.grow i).grow i = ram.grow i := by
  refine Alike.eq (fun k => ?_) ?_
  · rw [get_grow]
  · rw [size_grow, size_grow]
    omega

theorem grow_comm : (ram.grow i).grow j = (ram.grow j).grow i := by
  refine Alike.eq (fun k => ?_) ?_
  · rw [get_grow, get_grow, get_grow, get_grow]
  · rw [size_grow, size_grow, size_grow, size_grow]
    omega

theorem put_grow (value : Int) : (ram.grow i).put j value = (ram.put j value).grow i := by
  refine Alike.eq (fun k => ?_) ?_
  · rw [get_put, get_grow, get_grow, get_put]
  · rw [size_put, size_grow, size_grow, size_put]
    omega

theorem writeAll_grow (events : List Event) :
    (ram.grow i).writeAll events = (ram.writeAll events).grow i := by
  induction events generalizing ram with
  | nil => rfl
  | cons event events ih => rw [writeAll_cons, writeAll_cons, put_grow, ih]

end Ram

namespace Storage

variable (data : Storage) (i : Nat)

/-- The storage with at least enough memory for the cell given. -/
def grow : Storage :=
  { data with ram := data.ram.grow i }

theorem computed_grow (code : Nat) : (data.grow i).computed code = (data.computed code).grow i := by
  have hoperand : (data.grow i).operand code = data.operand code := by
    unfold operand grow
    rw [Ram.get_grow]
  unfold computed
  rw [hoperand]
  unfold grow setResult
  dsimp only
  split
  · rw [Ram.grow_comm]
  · rfl

theorem stored_grow (dest : Nat) (address : Int) :
    (data.grow i).stored dest address = (data.stored dest address).grow i := by
  have hram : (if dest.testBit 0 then (data.ram.grow i).put address.toNat data.out
        else data.ram.grow i) =
      (if dest.testBit 0 then data.ram.put address.toNat data.out else data.ram).grow i := by
    split
    · exact data.ram.put_grow i _ data.out
    · rfl
  exact congrArg (fun ram => { data.stored dest address with ram := ram }) hram

theorem executed_grow (word : Int) : (data.grow i).executed word = (data.executed word).grow i := by
  unfold executed
  split
  · rw [computed_grow, stored_grow]
    rfl
  · rfl

end Storage

/-! ### States that are grown -/

open Computer

variable {c : Computer} {s : State}

theorem growForTrace_growForTrace (s : State) :
    growForTrace (growForTrace s) = growForTrace s := by
  obtain ⟨⟨a, d, out, zr, ng, ram⟩, pc, ir, tick, halted, lastFetch⟩ := s
  simp only [growForTrace, Ram.grow_grow_self]

theorem size_growForTrace (s : State) :
    (growForTrace s).data.ram.size = max s.data.ram.size 3 :=
  Ram.size_grow _ 2

theorem State.alike_growForTrace (s : State) : s.Alike (growForTrace s) :=
  ⟨⟨rfl, rfl, rfl, rfl, rfl, fun i => (Ram.get_grow _ 2 i).symm⟩, rfl, rfl, rfl, rfl, rfl⟩

theorem State.IsSound.growForTrace (hs : s.IsSound) : (growForTrace s).IsSound :=
  ⟨hs.data.withRam _, hs.pc⟩

namespace Computer

theorem dueStorage_growForTrace (c : Computer) (s : State) :
    c.dueStorage (growForTrace s) = (c.dueStorage s).grow 2 := by
  show ({ s.data with ram := (s.data.ram.grow 2).writeAll _ } : Storage) = _
  rw [Ram.writeAll_grow]
  rfl

theorem proceed_growForTrace (c : Computer) (word : Int) (s : State) :
    c.proceed word (growForTrace s) = growForTrace (c.proceed word s) := by
  unfold proceed
  dsimp only
  rw [dueStorage_growForTrace, Storage.executed_grow]
  rfl

/-- A step from a memory that has been grown leads to the state to which it leads without, with the
memory grown then. -/
theorem next_growForTrace (c : Computer) (s : State) :
    c.next (growForTrace s) = growForTrace (c.next s) := by
  rcases c.next_cases s with ⟨hrun, hnext⟩ | ⟨hrun, hfetch, hnext⟩ | ⟨hrun, word, hfetch, hnext⟩
  · rw [hnext]
    exact next_of_halted hrun
  · rw [hnext, next_of_pastEnd (s := growForTrace s) hrun hfetch, dueStorage_growForTrace]
    rfl
  · rw [hnext, next_of_fetch (s := growForTrace s) hrun hfetch, proceed_growForTrace]

theorem isDone_growForTrace (c : Computer) (s : State) :
    c.isDone (growForTrace s) = c.isDone s :=
  rfl

theorem commute_growForTrace_advance (c : Computer) : Function.Commute growForTrace c.advance := by
  intro s
  unfold advance
  rw [isDone_growForTrace, next_growForTrace]
  split
  · rfl
  · rfl

theorem runStarts_growForTrace (hc : c.IsWellFormed) (hs : s.IsSound) (n : Nat) :
    c.runStarts n (growForTrace s) = (c.runStarts n s).map growForTrace := by
  induction n generalizing s with
  | zero => rfl
  | succ n ih =>
    rw [runStarts, runStarts, isDone_growForTrace, step_eq_next hc hs,
      step_eq_next hc hs.growForTrace, next_growForTrace]
    split
    · rfl
    · exact congrArg _ (ih (hs.next hc))

/-! ### Lines -/

/-- The line, in which no line ends, is what a trace shows of the state. -/
def Shows (c : Computer) (s : State) (line : String) : Prop :=
  IsUnbroken line.toList ∧ c.showNext s = (.ok (line ++ "\n"), growForTrace s)

theorem exists_instructionText (hs : s.IsSound) :
    ∃ text, c.instructionText s.pc = .ok text ∧ IsUnbroken text.toList := by
  obtain ⟨pc, hpc⟩ := Int.eq_ofNat_of_zero_le hs.pc
  unfold instructionText
  rw [hpc]
  cases hend : c.isPastEnd pc with
  | true => exact ⟨_, rfl, isUnbroken_of_all rfl⟩
  | false =>
    rw [isPastEnd, decide_eq_false_iff_not, Int.ofNat_le, Nat.not_le] at hend
    rw [c.fetch?_natCast (Array.getElem?_eq_getElem hend)]
    exact ⟨_, rfl, Word.isUnbroken_disassemble _⟩

/-- The line that shows a state ends where its line feed is. -/
theorem exists_stateLine {text : String} (htext : IsUnbroken text.toList) (s : State) :
    ∃ line, stateLine text s = line ++ "\n" ∧ IsUnbroken line.toList := by
  have hfield (label : String) {front value : String}
      (hlabel : label.toList.all (fun c => !isLineBreak c) = true)
      (hfront : IsUnbroken front.toList) (hvalue : IsUnbroken value.toList) :
      IsUnbroken (front ++ label ++ value).toList := by
    rw [String.toList_append, String.toList_append]
    exact (hfront.append (isUnbroken_of_all hlabel)).append hvalue
  have htick : IsUnbroken ("t=" ++ toString s.tick).toList := by
    rw [String.toList_append]
    exact IsUnbroken.append (isUnbroken_of_all rfl) (isUnbroken_toString _)
  have hpc := hfield " pc=" rfl htick (isUnbroken_toString s.pc)
  have ha := hfield " A=" rfl (hfield " ir=" rfl hpc htext) (isUnbroken_toString s.data.a)
  have hd := hfield " D=" rfl ha (isUnbroken_toString (Word.signed s.data.d))
  have hcell (i : Nat) := isUnbroken_toString_nat (s.data.ram.get i)
  exact ⟨_, rfl, hfield " ARG=" rfl (hfield " LCL=" rfl (hfield " SP=" rfl hd (hcell 0)) (hcell 1))
    (hcell 2)⟩

/-- Every sound state has its line. -/
theorem exists_shows (hs : s.IsSound) : ∃ line, c.Shows s line := by
  obtain ⟨text, htext, hunbroken⟩ := exists_instructionText (c := c) hs
  obtain ⟨line, hline, hends⟩ := exists_stateLine hunbroken s
  refine ⟨line, hends, ?_⟩
  rw [showNext, htext, ← hline]

theorem stateLine_growForTrace (text : String) (s : State) :
    stateLine text (growForTrace s) = stateLine text s := by
  have hget (i : Nat) : (growForTrace s).data.ram.get i = s.data.ram.get i := Ram.get_grow _ 2 i
  unfold stateLine
  simp only [hget]
  rfl

/-- What a trace shows of a state does not depend on the size of the memory. -/
theorem shows_growForTrace_iff {line : String} :
    c.Shows (growForTrace s) line ↔ c.Shows s line := by
  have hpc : (growForTrace s).pc = s.pc := rfl
  unfold Shows showNext
  rw [hpc, growForTrace_growForTrace]
  simp only [stateLine_growForTrace]
  cases c.instructionText s.pc with
  | ok text => exact Iff.rfl
  | error cause =>
    constructor
    · rintro ⟨-, h⟩
      cases h
    · rintro ⟨-, h⟩
      cases h

/-- The lines of states can be told apart in the text that they make up. -/
theorem textLines_of_shows {starts : List State} {lines : List String}
    (h : List.Forall₂ c.Shows starts lines) : textLines (endLines lines) = lines := by
  apply textLines_endLines
  induction h with
  | nil => exact fun _ hline => absurd hline List.not_mem_nil
  | cons hshow _ ih => exact List.forall_mem_cons.2 ⟨hshow.1, ih⟩

/-! ### Runs -/

/-- The states from which at most `n` steps of a run with a trace are made, after the memory has
been read. -/
def tracedStarts (c : Computer) : Nat → State → List State
  | 0, _ => []
  | n + 1, s =>
    if c.isDone s then []
    else
      let shown := (c.showNext s).2
      shown :: c.tracedStarts n (c.step shown).state

theorem tracedStarts_of_isDone (hdone : c.isDone s = true) (n : Nat) : c.tracedStarts n s = [] := by
  cases n with
  | zero => rfl
  | succ n => rw [tracedStarts, hdone, if_pos rfl]

theorem runTracedFor_of_isDone (hdone : c.isDone s = true) (n : Nat) (trace : String) :
    c.runTracedFor n trace s = (trace, .ok s) := by
  cases n with
  | zero => rfl
  | succ n => rw [runTracedFor, hdone, if_pos rfl]

theorem tracedStarts_succ (hc : c.IsWellFormed) (hs : s.IsSound) (hdone : c.isDone s = false)
    (n : Nat) :
    c.tracedStarts (n + 1) s = growForTrace s :: c.tracedStarts n (growForTrace (c.next s)) := by
  obtain ⟨line, -, hshow⟩ := exists_shows (c := c) hs
  rw [tracedStarts, hdone, if_neg Bool.false_ne_true, hshow]
  dsimp only
  rw [step_eq_next hc hs.growForTrace, next_growForTrace, Outcome.state]

/-- A run with a trace writes a line and goes on from the next state, with the memory grown. -/
theorem runTracedFor_succ (hc : c.IsWellFormed) (hs : s.IsSound) (hdone : c.isDone s = false)
    {line : String} (hline : c.Shows s line) (n : Nat) (trace : String) :
    c.runTracedFor (n + 1) trace s =
      c.runTracedFor n (trace ++ (line ++ "\n")) (growForTrace (c.next s)) := by
  rw [runTracedFor, hdone, if_neg Bool.false_ne_true, hline.2]
  dsimp only
  rw [step_eq_next hc hs.growForTrace, next_growForTrace]

/-- The steps of a run with a trace are made from the same states as those of one without, but for
the size of the memory. -/
theorem tracedStarts_eq_map (hc : c.IsWellFormed) (hs : s.IsSound) (n : Nat) :
    c.tracedStarts n s = (c.runStarts n s).map growForTrace := by
  induction n generalizing s with
  | zero => rfl
  | succ n ih =>
    rw [runStarts]
    cases hdone : c.isDone s with
    | true => exact tracedStarts_of_isDone hdone _
    | false =>
      have hagain : growForTrace ∘ growForTrace = growForTrace := funext growForTrace_growForTrace
      rw [tracedStarts_succ hc hs hdone, ih (hs.next hc).growForTrace,
        runStarts_growForTrace hc (hs.next hc), List.map_map, hagain, if_neg Bool.false_ne_true,
        step_eq_next hc hs]
      rfl

/-- A run with a trace ends like one without, with the memory grown if a step has been made, and
writes a line for each state from which a step is made. -/
theorem runTracedFor_eq (hc : c.IsWellFormed) (hs : s.IsSound) (n : Nat) (trace : String) :
    ∃ lines, List.Forall₂ c.Shows (c.tracedStarts n s) lines ∧
      c.runTracedFor n trace s = (trace ++ endLines lines,
        .ok (if c.tracedStarts n s = [] then c.advance^[n] s
          else growForTrace (c.advance^[n] s))) := by
  induction n generalizing trace s with
  | zero => exact ⟨[], .nil, by rw [endLines, String.append_empty]; rfl⟩
  | succ n ih =>
    cases hdone : c.isDone s with
    | true =>
      rw [tracedStarts_of_isDone hdone, runTracedFor_of_isDone hdone, if_pos rfl,
        iterate_advance_of_isDone hdone]
      exact ⟨[], .nil, by rw [endLines, String.append_empty]⟩
    | false =>
      obtain ⟨line, hline⟩ := exists_shows (c := c) hs
      -- what follows starts from a memory that has been grown, and need not be grown again
      obtain ⟨lines, hlines, hrun⟩ := ih (hs.next hc).growForTrace (trace ++ (line ++ "\n"))
      have hcommute := (c.commute_growForTrace_advance.iterate_right n) (c.next s)
      rw [← hcommute, growForTrace_growForTrace, ite_self] at hrun
      rw [tracedStarts_succ hc hs hdone, runTracedFor_succ hc hs hdone hline,
        Function.iterate_succ_apply, advance_of_not_isDone hdone, hrun,
        if_neg (List.cons_ne_nil _ _)]
      exact ⟨line :: lines, .cons (shows_growForTrace_iff.2 hline) hlines, by
        rw [endLines, String.append_assoc]⟩

end Computer

end HackToolchain.Machine
