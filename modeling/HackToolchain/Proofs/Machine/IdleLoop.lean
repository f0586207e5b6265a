import HackToolchain.Proofs.Machine.MemorySize

/-!
# Machines that halt inside the program

A machine halts inside its program only at a jump that is always taken, when the instruction just
before the jump loads its own address and the jump leads there.  The machine does not look at what
the jump computes, or at where it puts the result.  So to halt there is not the same as to have come
to rest: a machine that is set going again (`Computer.resume`) may still change.

* `Computer.InLoop.next`: it never leaves the two instructions of the loop;
* `Computer.Rests.next`: `D` and the contents of the memory stay as they are for ever if they do so
  for one round of the loop;
* `haltedLoop_rests`: so a machine that has halted in a loop is at rest if and only if one more
  round of the loop changes neither `D` nor memory, in particular if the jump stores its result in
  neither.
-/

namespace HackToolchain.Machine

open Asm

namespace Computer

variable {c : Computer} {s : State} {start : Nat} {word : Int}

/-- Steps that are made even though the machine has halted: for each step, the flag says whether the
machine is set going before it. -/
def resume (c : Computer) : List Bool → State → Outcome State
  | [], s => .ok s
  | again :: flags, s =>
    (c.step { s with halted := s.halted && !again }).andThen (c.resume flags)

/-- A step before which the machine is set going. -/
theorem resume_again (hc : c.IsWellFormed) (hs : s.IsSound) (flags : List Bool) :
    c.resume (true :: flags) s = c.resume flags (c.next { s with halted := false }) := by
  have hgo : ({ s with halted := false } : State).IsSound := ⟨hs.data, hs.pc⟩
  rw [resume, Bool.not_true, Bool.and_false, step_eq_next hc hgo]
  rfl

/-- What every next state keeps, whether or not the machine has halted, is kept by a resumed
machine. -/
theorem resume_of_invariant (hc : c.IsWellFormed) {I : State → Prop}
    (hsound : ∀ s, I s → s.IsSound) (hhalted : ∀ s halted, I s → I { s with halted := halted })
    (hnext : ∀ s, I s → I (c.next s)) (flags : List Bool) (hs : I s) :
    ∃ t, c.resume flags s = .ok t ∧ I t := by
  induction flags generalizing s with
  | nil => exact ⟨s, rfl, hs⟩
  | cons again flags ih =>
    have hgo := hhalted s (s.halted && !again) hs
    rw [resume, step_eq_next hc (hsound _ hgo)]
    exact ih (hnext _ hgo)

/-! ### The loop -/

/-- The two instructions of a loop: the one at `start` loads that address, and `word` behind it is a
jump that is always taken. -/
structure HasLoop (c : Computer) (start : Nat) (word : Int) : Prop where
  first : c.rom[start]? = some (start : Int)
  second : c.rom[start + 1]? = some word
  address : start < 0x8000
  compute : Word.isCompute word = true
  jump : Word.jump word = 7

/-- The machine is at one of the two instructions of a loop, and no write is due any more. -/
structure InLoop (c : Computer) (start : Nat) (s : State) : Prop where
  sound : s.IsSound
  place : s.pc = start ∨ s.pc = start + 1 ∧ s.data.a = start
  quiet : ∀ event ∈ c.schedule, event.tick < s.tick

theorem InLoop.withHalted (h : c.InLoop start s) (halted : Bool) :
    c.InLoop start { s with halted := halted } :=
  ⟨⟨h.sound.data, h.sound.pc⟩, h.place, h.quiet⟩

theorem InLoop.dueStorage_eq (h : c.InLoop start s) : c.dueStorage s = s.data := by
  unfold dueStorage
  rw [Schedule.due_eq_nil h.quiet]
  rfl

/-- The first instruction of the loop loads its address. -/
theorem InLoop.next_first (hloop : c.HasLoop start word) (h : c.InLoop start s)
    (hrun : s.halted = false) (hpc : s.pc = start) :
    (c.next s).pc = start + 1 ∧ (c.next s).data = { s.data with a := start } ∧
      (c.next s).tick = s.tick + 1 := by
  have hfetch : c.rom[s.pc.toNat]? = some (start : Int) := by
    rw [hpc, Int.toNat_natCast]
    exact hloop.first
  have haddress := Word.isCompute_address hloop.address
  rw [next_of_fetch hrun hfetch]
  refine ⟨?_, ?_, rfl⟩
  · show successor start s.pc _ _ = _
    rw [successor, haddress, Bool.false_and, if_neg Bool.false_ne_true, hpc]
  · show (c.dueStorage s).executed start = _
    rw [h.dueStorage_eq, Storage.executed, haddress, if_neg Bool.false_ne_true]

/-- The second instruction of the loop jumps back, and computes what it may. -/
theorem InLoop.next_second (hloop : c.HasLoop start word) (h : c.InLoop start s)
    (hrun : s.halted = false) (hpc : s.pc = start + 1) (ha : s.data.a = start) :
    (c.next s).pc = start ∧ (c.next s).data = s.data.executed word ∧
      (c.next s).tick = s.tick + 1 := by
  have hfetch : c.rom[s.pc.toNat]? = some word := by
    rw [hpc]
    exact hloop.second
  rw [next_of_fetch hrun hfetch]
  refine ⟨?_, ?_, rfl⟩
  · show successor word s.pc _ _ = _
    rw [successor, hloop.compute, hloop.jump, takesJump_seven, Bool.true_and, if_pos rfl,
      h.dueStorage_eq, ha]
  · show (c.dueStorage s).executed word = _
    rw [h.dueStorage_eq]

/-- A machine does not leave the loop. -/
theorem InLoop.next (hc : c.IsWellFormed) (hloop : c.HasLoop start word) (h : c.InLoop start s) :
    c.InLoop start (c.next s) := by
  cases hrun : s.halted with
  | true => rwa [next_of_halted hrun]
  | false =>
    have hquiet : ∀ event ∈ c.schedule, event.tick < s.tick + 1 := by
      intro event hevent
      have := h.quiet event hevent
      omega
    have hsound := h.sound.next hc
    -- the tick advances whichever of the two instructions is next
    rcases h.place with hpc | ⟨hpc, ha⟩
    · obtain ⟨hpc', hdata, htick⟩ := h.next_first hloop hrun hpc
      exact ⟨hsound, .inr ⟨hpc', by rw [hdata]⟩, by rwa [htick]⟩
    · obtain ⟨hpc', -, htick⟩ := h.next_second hloop hrun hpc ha
      exact ⟨hsound, .inl hpc', by rwa [htick]⟩

end Computer

/-! ### Rest -/

namespace Storage

/-- The same value in `D`, and memories with the same contents. -/
structure SameContents (x y : Storage) : Prop where
  d : x.d = y.d
  ram : x.ram.Alike y.ram

/-- The storage after a round of the loop at `start` with the jump `word`. -/
def round (data : Storage) (start word : Int) : Storage :=
  { data with a := start }.executed word

/-- A jump that stores its result neither in `D` nor in memory changes neither. -/
theorem round_sameContents (data : Storage) (start : Int) {word : Int}
    (hm : (Word.dest word).testBit 0 = false) (hd : (Word.dest word).testBit 1 = false) :
    (data.round start word).SameContents data := by
  unfold round executed
  split
  · refine ⟨?_, fun i => ?_⟩
    · simp only [stored, hd, if_false, Bool.false_eq_true]
      rfl
    · simp only [stored, hm, if_false, Bool.false_eq_true, computed, setResult]
      split
      · exact Ram.get_grow _ _ _
      · rfl
  · exact ⟨rfl, fun _ => rfl⟩

end Storage

namespace Computer

variable {c : Computer} {s : State} {start : Nat} {word : Int} {data : Storage}

/-- The machine is in the loop, with the contents of `data`. -/
structure Rests (c : Computer) (start : Nat) (data : Storage) (s : State) : Prop
    extends c.InLoop start s where
  contents : s.data.SameContents data

/-- If a round changes nothing, then the next state has the same contents. -/
theorem Rests.next (hc : c.IsWellFormed) (hloop : c.HasLoop start word)
    (hround : (data.round start word).SameContents data) (h : c.Rests start data s) :
    c.Rests start data (c.next s) := by
  refine ⟨h.toInLoop.next hc hloop, ?_⟩
  cases hrun : s.halted with
  | true =>
    rw [next_of_halted hrun]
    exact h.contents
  | false =>
    rcases h.place with hpc | ⟨hpc, ha⟩
    · obtain ⟨-, hdata, -⟩ := h.next_first hloop hrun hpc
      rw [hdata]
      exact ⟨h.contents.d, h.contents.ram⟩
    · obtain ⟨-, hdata, -⟩ := h.next_second hloop hrun hpc ha
      have halike : (s.data.executed word).Alike (data.round start word) :=
        Storage.executed_alike (y := { data with a := start }) ha h.contents.d h.contents.ram
          hloop.compute
      rw [hdata]
      exact ⟨halike.d.trans hround.d, fun i => (halike.ram i).trans (hround.ram i)⟩

/-- Two steps from the first instruction make a round. -/
theorem InLoop.resume_round (hc : c.IsWellFormed) (hloop : c.HasLoop start word)
    (h : c.InLoop start s) (hpc : s.pc = start) :
    ∃ t, c.resume [true, true] s = .ok t ∧ t.data = s.data.round start word := by
  have h₁ := h.withHalted false
  obtain ⟨hpc₁, hdata₁, -⟩ := h₁.next_first hloop rfl hpc
  have h₂ := (h₁.next hc hloop).withHalted false
  obtain ⟨-, hdata₂, -⟩ := h₂.next_second hloop rfl hpc₁ (by rw [hdata₁])
  refine ⟨_, ?_, hdata₂.trans ?_⟩
  · rw [resume_again hc h.sound, resume_again hc (h₁.next hc hloop).sound]
    rfl
  · show (c.next { s with halted := false }).data.executed word = _
    rw [hdata₁]
    rfl

/-! ### Halting -/

theorem of_idles {pc target : Nat} {tick : Int} (h : c.idles word pc target tick = true) :
    Word.isCompute word = true ∧ Word.jump word = 7 ∧ c.IsIdle pc target ∧
      ∀ event ∈ c.schedule, event.tick ≤ tick := by
  unfold idles at h
  simp only [Bool.and_eq_true, beq_iff_eq, decide_eq_true_eq, Bool.not_eq_true'] at h
  obtain ⟨⟨⟨hcompute, hjump⟩, hidle⟩, hlater⟩ := h
  refine ⟨hcompute, hjump, hidle, fun event hevent => ?_⟩
  have := List.any_eq_false.1 hlater event hevent
  rw [decide_eq_true_eq] at this
  omega

/-- An instruction that halts the machine inside its program closes an idle loop. -/
theorem idles_of_halts (hhalt : (c.proceed word s).halted = true)
    (hinside : (c.proceed word s).pc < c.rom.size) :
    c.idles word s.pc.toNat s.data.a.toNat s.tick = true := by
  have hend : c.isPastEnd (c.proceed word s).pc = false := by
    rw [isPastEnd, decide_eq_false_iff_not]
    omega
  have hor : (c.idles word s.pc.toNat s.data.a.toNat s.tick ||
      c.isPastEnd (c.proceed word s).pc) = true := hhalt
  rwa [hend, Bool.or_false] at hor

/-- A machine that halts inside its program has made a jump that closes an idle loop. -/
theorem exists_idles_of_halts (hs : s.IsSound) (hrun : s.halted = false)
    (hhalt : (c.next s).halted = true) (hinside : (c.next s).pc < c.rom.size) :
    ∃ word, c.rom[s.pc.toNat]? = some word ∧ c.next s = c.proceed word s ∧
      c.idles word s.pc.toNat s.data.a.toNat s.tick = true := by
  rcases c.next_cases s with ⟨hrun', -⟩ | ⟨-, hfetch, hnext⟩ | ⟨-, word, hfetch, hnext⟩
  · rw [hrun] at hrun'
    cases hrun'
  · -- a machine past the end of the program stays there
    rw [hnext] at hinside
    have hend := Array.getElem?_eq_none_iff.1 hfetch
    have hlt : s.pc < c.rom.size := hinside
    have := hs.pc
    omega
  · rw [hnext] at hhalt hinside
    exact ⟨word, hfetch, hnext, idles_of_halts hhalt hinside⟩

/-- Such a machine is in a loop, if the loop stands where an address can be loaded. -/
theorem exists_loop_of_halts (hc : c.IsWellFormed) (hs : s.IsSound) (hrun : s.halted = false)
    (hhalt : (c.next s).halted = true) (hinside : (c.next s).pc < c.rom.size)
    (haddress : (c.next s).pc < 0x8000) :
    ∃ (start : Nat) (word : Int), c.rom[s.pc.toNat]? = some word ∧ (c.next s).pc = start ∧
      c.HasLoop start word ∧ c.InLoop start (c.next s) := by
  have hsound := hs.next hc
  obtain ⟨word, hfetch, hnext, hidles⟩ := exists_idles_of_halts hs hrun hhalt hinside
  obtain ⟨hcompute, hjump, ⟨hplace, hfirst⟩, hquiet⟩ := of_idles hidles
  rw [hnext] at haddress hsound ⊢
  have hpc : (c.proceed word s).pc = s.data.a.toNat := by
    show successor word s.pc (c.dueStorage s) _ = _
    rw [successor, hcompute, hjump, takesJump_seven, Bool.true_and, if_pos rfl]
    exact (Int.toNat_of_nonneg hs.data.a.1).symm
  rw [hpc] at haddress
  have hloop : c.HasLoop s.data.a.toNat word :=
    ⟨hfirst, by rw [hplace]; exact hfetch, Int.ofNat_lt.1 haddress, hcompute, hjump⟩
  exact ⟨_, word, hfetch, hpc, hloop, hsound, .inl hpc,
    fun event hevent => Int.lt_add_one_of_le (hquiet event hevent)⟩

end Computer

open Computer

/-- A machine that halts inside its program and is set going again never leaves the two instructions
before the place where it halted.  It never changes `D` or the contents of the memory if and only if
one round of the loop changes neither, and so if the jump does not store its result there.  From
`0x8000` on, a word that is its own address is a computation, so that such loops are left out. -/
theorem haltedLoop_rests {c : Computer} (hc : c.IsWellFormed) (ramWords : Int) (n : Nat)
    {s s' : State} (hticks : c.ticks n (State.fresh ramWords) = .ok s) (hstep : c.step s = .ok s')
    (hrun : s.halted = false) (hhalt : s'.halted = true) (hinside : s'.pc < c.rom.size)
    (haddress : s'.pc < 0x8000) :
    ∃ word, c.rom[s.pc.toNat]? = some word ∧
      (∀ flags, ∃ t, c.resume flags s' = .ok t ∧ (t.pc = s'.pc ∨ t.pc = s'.pc + 1)) ∧
      ((∀ flags, ∃ t, c.resume flags s' = .ok t ∧ t.data.SameContents s'.data) ↔
        (s'.data.round s'.pc word).SameContents s'.data) ∧
      ((Word.dest word).testBit 0 = false → (Word.dest word).testBit 1 = false →
        ∀ flags, ∃ t, c.resume flags s' = .ok t ∧ t.data.SameContents s'.data) := by
  have hs := isSound_of_ticks hc hticks
  rw [step_eq_next hc hs] at hstep
  injection hstep with hstep
  subst hstep
  obtain ⟨start, word, hword, hpc, hloop, hin⟩ :=
    exists_loop_of_halts hc hs hrun hhalt hinside haddress
  -- one round without effect is enough, since every further one starts from the same contents
  have hrests (hround : ((c.next s).data.round start word).SameContents (c.next s).data)
      (flags : List Bool) :
      ∃ t, c.resume flags (c.next s) = .ok t ∧ t.data.SameContents (c.next s).data := by
    obtain ⟨t, ht, hrests⟩ := resume_of_invariant (I := c.Rests start (c.next s).data) hc
      (fun _ h => h.sound) (fun _ halted h => ⟨h.withHalted halted, h.contents⟩)
      (fun _ h => h.next hc hloop hround) flags ⟨hin, rfl, fun _ => rfl⟩
    exact ⟨t, ht, hrests.contents⟩
  rw [hpc]
  refine ⟨word, hword, fun flags => ?_, ⟨fun h => ?_, hrests⟩, fun hm hd =>
    hrests (Storage.round_sameContents _ _ hm hd)⟩
  · obtain ⟨t, ht, hin'⟩ := resume_of_invariant (I := c.InLoop start) hc (fun _ h => h.sound)
      (fun _ halted h => h.withHalted halted) (fun _ h => h.next hc hloop) flags hin
    exact ⟨t, ht, hin'.place.imp_right And.left⟩
  · -- two steps make one round
    obtain ⟨t, ht, hdata⟩ := hin.resume_round hc hloop hpc
    obtain ⟨t', ht', hsame⟩ := h [true, true]
    rw [ht] at ht'
    injection ht' with ht'
    rwa [← hdata, ht']

/-- A program that ends in a loop without effect. -/
def endLoop : Computer where
  rom := #[7, 0xEC10, 2, 0xEA87]

theorem haltedLoop_rests_endLoop :
    ∃ s s', endLoop.ticks 3 (State.fresh 1) = .ok s ∧ endLoop.step s = .ok s' ∧
      s'.halted = true ∧ s'.data.d = 7 ∧
      (∀ flags, ∃ t, endLoop.resume flags s' = .ok t ∧ (t.pc = 2 ∨ t.pc = 3)) ∧
      ∀ flags, ∃ t, endLoop.resume flags s' = .ok t ∧ t.data.SameContents s'.data := by
  obtain ⟨word, hword, hplace, -, hrests⟩ :=
    haltedLoop_rests (c := endLoop) (by decide) 1 3 rfl rfl rfl rfl (by decide) (by decide)
  obtain rfl : 0xEA87 = word := Option.some.inj hword
  exact ⟨_, _, rfl, rfl, rfl, rfl, hplace, hrests (by decide) (by decide)⟩

/-- A program that ends in a loop whose jump counts in `D`. -/
def countingLoop : Computer where
  rom := #[0, 0xE7D7]

/-- The machine halts in the loop that counts, although `D` changes if it is set going again. -/
theorem countingLoop_goes_on :
    countingLoop.IsWellFormed ∧ ∃ s s' t, countingLoop.ticks 1 (State.fresh 1) = .ok s ∧
      countingLoop.step s = .ok s' ∧ s.halted = false ∧ s'.halted = true ∧
      s'.pc < countingLoop.rom.size ∧ s'.data.d = 1 ∧
      countingLoop.resume [true, false] s' = .ok t ∧ t.data.d = 2 :=
  ⟨by decide, _, _, _, rfl, rfl, rfl, rfl, by decide, rfl, rfl, rfl⟩

end HackToolchain.Machine
