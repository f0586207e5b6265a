import HackToolchain.Proofs.VM.Frames

/-!
# Calls return

From a call to the matching return, whatever is called and returns in between, the frames of the
activations under way stand on the stack as they have been pushed, if all instructions keep the
discipline (`DisciplinedRun`).

* `Live.step`, `DisciplinedRun.live`: the frames stay live in runs of any length and depth;
* `computer_returns`: the machine comes back from a call, with the result on the stack and the base
  cells as they were;
* `operation_spoils_frame`: it may not if an operation is applied to an empty working stack, even
  though `SP` stays where it is.
-/

namespace HackToolchain.VM

open Asm Machine Code

/-! ### Runs -/

/-- Runs that keep the discipline, from an instruction to an instruction, in which at least one
activation is under way all the time. -/
inductive DisciplinedRun (needs : Instruction → Nat) (address : String → Nat)
    (program : List Placed) : List Nat → Nat → Memory → List Nat → Nat → Memory → Prop where
  /-- No instruction. -/
  | refl {starts : List Nat} {k : Nat} {m : Memory} :
      DisciplinedRun needs address program starts k m starts k m
  /-- An instruction, and a run from the instruction that begins where it goes on. -/
  | step {starts starts' : List Nat} {k k' k'' : Nat} {m m' m'' : Memory} {p : Placed}
      (hp : program[k]? = some p) (hkeeps : KeepsDiscipline needs address starts p m)
      (hunder : p.instruction.startsAfter m starts ≠ [])
      (hout : p.instruction.step .inMemory address p.scope (startOf program (k + 1)) m =
        (startOf program k', m'))
      (hrest : DisciplinedRun needs address program (p.instruction.startsAfter m starts) k' m'
        starts' k'' m'') :
      DisciplinedRun needs address program starts k m starts' k'' m''

/-- Runs through the instructions with the given numbers, if that keeps the discipline. -/
def runThrough (needs : Instruction → Nat) (address : String → Nat) (program : List Placed) :
    List Nat → List Nat × Nat × Memory → Option (List Nat × Nat × Memory)
  | [], state => some state
  | k' :: ks, (starts, k, m) =>
    match program[k]? with
    | none => none
    | some p =>
      let out := p.instruction.step .inMemory address p.scope (startOf program (k + 1)) m
      if KeepsDiscipline needs address starts p m ∧ p.instruction.startsAfter m starts ≠ [] ∧
          out.1 = startOf program k' then
        runThrough needs address program ks (p.instruction.startsAfter m starts, k', out.2)
      else none

theorem disciplinedRun_of_runThrough {needs : Instruction → Nat} {address : String → Nat}
    {program : List Placed} {ks starts starts' : List Nat} {k k' : Nat} {m m' : Memory}
    (h : runThrough needs address program ks (starts, k, m) = some (starts', k', m')) :
    DisciplinedRun needs address program starts k m starts' k' m' := by
  induction ks generalizing starts k m with
  | nil =>
    cases h
    exact .refl
  | cons next ks ih =>
    rw [runThrough] at h
    cases hp : program[k]? with
    | none =>
      rw [hp] at h
      cases h
    | some p =>
      simp only [hp] at h
      split at h
      · rename_i hstep
        exact .step hp hstep.1 hstep.2.1 (Prod.ext hstep.2.2 rfl) (ih h)
      · cases h

section Runs

variable {f : Frame} {fs : List Frame} {m m' : Memory} {address : String → Nat}
  {program : List Placed} {starts starts' : List Nat} {k k' : Nat}

/-- What one instruction does to the frames, of which the last one stays the same. -/
theorem Live.step {p : Placed} (h : Live f fs m) (hstarts : starts = (f :: fs).map Frame.start)
    (hkeeps : KeepsDiscipline Instruction.operands address starts p m)
    (hcounted : p.instruction.IsCounted) (hunder : p.instruction.startsAfter m starts ≠ [])
    (next : Nat) :
    ∃ f' fs', p.instruction.startsAfter m starts = (f' :: fs').map Frame.start ∧
      Live f' fs' (p.instruction.step .inMemory address p.scope next m).2 ∧
      (f' :: fs').getLast? = (f :: fs).getLast? := by
  have hneeds := hkeeps.needs_le
  have hlocal := h.local_step hstarts hkeeps
  have hfits := hkeeps.fits
  rw [h.toNat_lcl] at hneeds
  obtain ⟨s, i⟩ := p
  -- a call adds a frame, a return takes one off, and all else leaves them alone
  cases i with
  | call name arguments =>
    refine ⟨_, f :: fs, ?_, h.call _ (hcounted arguments rfl) hneeds hfits, List.getLast?_cons_cons⟩
    rw [hstarts]
    rfl
  | ret =>
    cases fs with
    | nil =>
      rw [hstarts] at hunder
      exact absurd rfl hunder
    | cons g fs =>
      refine ⟨g, fs, ?_, h.ret hneeds, List.getLast?_cons_cons.symm⟩
      rw [hstarts]
      rfl
  | _ => exact ⟨f, fs, hstarts, hlocal (fun _ _ => Instruction.noConfusion) nofun next, rfl⟩

/-- The frames stay live in runs of any length and depth. -/
theorem DisciplinedRun.live (hcounted : ∀ p ∈ program, p.instruction.IsCounted)
    (hrun : DisciplinedRun Instruction.operands address program starts k m starts' k' m')
    (hstarts : starts = (f :: fs).map Frame.start) (h : Live f fs m) :
    ∃ f' fs', starts' = (f' :: fs').map Frame.start ∧ Live f' fs' m' ∧
      (f' :: fs').getLast? = (f :: fs).getLast? := by
  induction hrun generalizing f fs with
  | refl => exact ⟨f, fs, hstarts, h, rfl⟩
  | step hp hkeeps hunder hout _ ih =>
    obtain ⟨g, gs, hstarts', hlive, hlast⟩ := h.step hstarts hkeeps
      (hcounted _ (List.mem_of_getElem? hp)) hunder (startOf program _)
    rw [hout] at hlive
    obtain ⟨f', fs', hstarts'', hlive', hlast'⟩ := ih hstarts' hlive
    exact ⟨f', fs', hstarts'', hlive', hlast'.trans hlast⟩

/-- Calls go where the address of their function says. -/
theorem step_of_mem_callee? {i : Instruction} {name : String} (h : name ∈ i.callee?)
    (mode : Scratch) (s : Scope) (next : Nat) :
    (i.step mode address s next m).1 = address name := by
  cases i with
  | start | call =>
    rw [← Option.some.inj h]
    rfl
  | _ => cases h

/-- No instruction begins where a call loads the address of its function. -/
theorem startOf_ne_of_callee {p : Placed} {name : String} (hp : program[k]? = some p)
    (hname : name ∈ p.instruction.callee?) : startOf program k' + 2 ≠ startOf program (k + 1) := by
  obtain ⟨front, _, _, _, -, hcount⟩ := exists_code_of_callee (s := p.scope) hname
  have hnext := startOf_succ hp
  rw [Placed.code, hcount] at hnext
  rcases Nat.lt_or_ge k k' with hlt | hge
  · have hmono : startOf program (k + 1) ≤ startOf program k' := startOf_mono program hlt
    omega
  · have hmono := startOf_mono program hge
    omega

variable {text : List String} {c : Computer} {st : State} {needs : Instruction → Nat}

/-- The computer follows the stack machine to the beginning of an instruction. -/
theorem Built.follows_to_startOf (hb : Built program text c.rom) (hsize : c.rom.size < 0x8000)
    (haddress : IsAddressing address program)
    (hst : Stands address .inMemory c program (startOf program k) m st)
    (hstep : StepsTo address .inMemory program k m (startOf program k') m') :
    ∃ st', c.Reaches st st' ∧ Stands address .inMemory c program (startOf program k') m' st' := by
  refine hb.follows_step hsize haddress (fun q hq name hname => ?_) hst hstep
  obtain ⟨p, hp, -, hout⟩ := hstep
  obtain rfl := Option.some.inj (hp.symm.trans hq)
  have hgoes : address name = startOf program k' :=
    (step_of_mem_callee? hname _ _ _).symm.trans (congrArg Prod.fst hout)
  rw [hgoes]
  exact startOf_ne_of_callee hp hname

/-- The computer follows a disciplined run. -/
theorem Built.follows_disciplinedRun (hb : Built program text c.rom) (hsize : c.rom.size < 0x8000)
    (haddress : IsAddressing address program)
    (hrun : DisciplinedRun needs address program starts k m starts' k' m')
    (hst : Stands address .inMemory c program (startOf program k) m st) :
    ∃ st', c.Reaches st st' ∧ Stands address .inMemory c program (startOf program k') m' st' := by
  induction hrun generalizing st with
  | refl => exact ⟨st, .refl st, hst⟩
  | step hp _ _ hout _ ih =>
    obtain ⟨t, hreach, ht⟩ := hb.follows_to_startOf hsize haddress hst
      ⟨_, hp, fun h => Scratch.noConfusion h, hout⟩
    obtain ⟨st', hreach', hst'⟩ := ih ht
    exact ⟨st', hreach.trans hreach', hst'⟩

/-- Where a return stands, the computer goes on. -/
theorem Stands.at_ret {s : Scope} (hp : program[k]? = some ⟨s, .ret⟩)
    (hst : Stands address .inMemory c program (startOf program k) m st) :
    c.At (startOf program k) st := by
  refine ⟨hst.arrives, fun hhalt => ?_⟩
  rcases hst.running hhalt with hend | hidle
  · exact hend
  · rcases hidle.eq_goto hp with hzero | ⟨name, hgoto, -⟩
    · cases hzero
    · cases hgoto

/-- The computer follows a call, a disciplined run from its function and a return. -/
theorem Built.follows_call (hb : Built program text c.rom) (hsize : c.rom.size < 0x8000)
    (haddress : IsAddressing address program) {scope scope' : Scope} {name : String} {n : Int}
    {k₁ k₂ : Nat} (hcall : program[k]? = some ⟨scope, .call name n⟩)
    (hentry : startOf program k₁ = address name) (harrives : c.Arrives (startOf program k) st)
    (hhalted : st.halted = false)
    (hrun : DisciplinedRun needs address program starts k₁
      (pushFrame (BitVec.ofNat 16 (startOf program (k + 1))) n st.data.ram.memory) starts' k₂ m)
    (hret : program[k₂]? = some ⟨scope', .ret⟩) :
    ∃ st', c.Reaches st st' ∧ c.At (popFrame .inMemory m).1.toNat st' ∧
      st'.data.ram.memory = (popFrame .inMemory m).2 := by
  have hst : Stands address .inMemory c program (startOf program k) st.data.ram.memory st :=
    ⟨harrives, rfl, fun h => by rw [hhalted] at h; contradiction⟩
  -- the call, the run of what is called, and the matching return
  obtain ⟨t, hreach, ht⟩ := hb.follows_to_startOf hsize haddress hst
    ⟨_, hcall, fun h => Scratch.noConfusion h, by rw [hentry]; rfl⟩
  obtain ⟨u, hreach', hu⟩ := hb.follows_disciplinedRun hsize haddress hrun ht
  obtain ⟨st', hreach'', hfinish⟩ := hb.executes_at hsize haddress hret (fun _ h => nomatch h)
    (hu.at_ret hret)
  have hmemory : u.data.ram.memory = m := hu.shows_memory
  rw [hmemory] at hfinish
  refine ⟨st', hreach.trans (hreach'.trans hreach''), ?_, hfinish.memory⟩
  exact hfinish.running.resolve_right fun ⟨_, _, hgoto⟩ => Instruction.noConfusion hgoto

/-- Behind a call there is at most the end of the program. -/
theorem Built.startOf_le (hb : Built program text c.rom) (k : Nat) :
    startOf program k ≤ c.rom.size := by
  rw [hb.size_eq, startOf]
  have hsplit := congrArg codeOf (List.take_append_drop k program)
  rw [codeOf_append] at hsplit
  rw [← hsplit, wordCount_append]
  exact Nat.le_add_right _ _

end Runs

/-- The machine comes back from calls.  If the run from the function to the matching return keeps
the discipline, each instruction finding as many values on the working stack as it needs, then the
machine goes on behind the call, with the result in the place of the arguments and the base cells as
they were. -/
def CallsReturn (needs : Instruction → Nat) : Prop :=
  ∀ {files : List SourceFile} {bootstrap comments : Bool} {text : List String} {words : Array Int}
    (_hpaths : PathsAreProper files) (_hcompile : compile files bootstrap comments = .ok text)
    (_hassemble : assemble text = .ok words) (_hsize : words.size ≤ 32767)
    {c : Computer} (_hrom : c.rom = words) {program : List Placed}
    (_hprogram : program = programOf files bootstrap) {address : String → Nat}
    (_haddress : address = (Layout.ofCode (codeOf program)).address) {k k₁ k₂ : Nat}
    {scope scope' : Scope} {name : String} {n : Nat} {m m₂ : Memory} {st : State}
    -- the call, and the beginning of its function
    (_hcall : program[k]? = some ⟨scope, .call name n⟩)
    (_hentry : startOf program k₁ = address name)
    (_harrives : c.Arrives (startOf program k) st) (_hhalted : st.halted = false)
    (_hmemory : st.data.ram.memory = m) (_hlow : 256 + n ≤ (m.cell .sp).toNat)
    (_hfits : (m.cell .sp).toNat + 5 ≤ 0x8000)
    -- the run to the matching return
    (_hrun : DisciplinedRun needs address program [(m.cell .sp).toNat] k₁
      (pushFrame (BitVec.ofNat 16 (startOf program (k + 1))) n m) [(m.cell .sp).toNat] k₂ m₂)
    (_hret : program[k₂]? = some ⟨scope', .ret⟩)
    (_hresult : (m₂.cell .lcl).toNat < (m₂.cell .sp).toNat),
    ∃ st', c.Reaches st st' ∧ c.At (startOf program (k + 1)) st' ∧
      let m' := st'.data.ram.memory
      (m'.cell .sp).toNat = (m.cell .sp).toNat - n + 1 ∧
        m' (BitVec.ofNat 16 ((m.cell .sp).toNat - n)) = m₂ (m₂.cell .sp - 1) ∧
        m'.cell .lcl = m.cell .lcl ∧ m'.cell .arg = m.cell .arg ∧
        m'.cell .this = m.cell .this ∧ m'.cell .that = m.cell .that

/-- The machine comes back from calls, if each instruction in between finds the values that it works
on in the working stack of its activation. -/
theorem computer_returns : CallsReturn Instruction.operands := by
  intro files bootstrap comments text words hpaths hcompile hassemble hsize c hrom program hprogram
    address haddress k k₁ k₂ scope scope' name n m m₂ st hcall hentry harrives hhalted hmemory hlow
    hfits hrun hret hresult
  subst hrom hprogram haddress hmemory
  have hlt : c.rom.size < 0x8000 := Nat.lt_succ_of_le hsize
  have hb := built_of_compile hpaths hcompile hassemble hlt
  obtain ⟨st', hreach, hat, hmemory⟩ := hb.follows_call hlt (isAddressing_ofCode _) hcall hentry
    harrives hhalted hrun hret
  -- the frame of the call is the only one at the matching return
  let first := Frame.ofCall (BitVec.ofNat 16 (startOf (programOf files bootstrap) (k + 1))) n
    st.data.ram.memory
  have hfirst : Live first [] (pushFrame first.back n st.data.ram.memory) := by
    refine live_pushFrame (Int.natCast_nonneg n) ⟨?_, Nat.sub_le _ _⟩
      (fun _ hg => absurd hg List.not_mem_nil) hfits
    exact Nat.le_sub_of_add_le hlow
  obtain ⟨f, fs, hstarts, hlive, hlast⟩ := hrun.live
    (fun p hp => (hb.isWellFormed p hp).isCounted) rfl hfirst
  have hnil : fs = [] := by
    have hlength := congrArg List.length hstarts
    rw [List.length_map, List.length_singleton, List.length_cons] at hlength
    exact List.eq_nil_of_length_eq_zero (by omega)
  subst hnil
  obtain rfl : f = first := Option.some.inj hlast
  have hreturned := hlive.returned (by rw [hlive.toNat_lcl] at hresult; omega)
  have hback : (popFrame .inMemory m₂).1.toNat = startOf (programOf files bootstrap) (k + 1) := by
    have hle := hb.startOf_le (k + 1)
    rw [hreturned.back_eq]
    change (BitVec.ofNat 16 _).toNat = _
    rw [BitVec.toNat_ofNat]
    omega
  refine ⟨st', hreach, hback ▸ hat, ?_⟩
  have hplace : first.result = (st.data.ram.memory.cell .sp).toNat - n := rfl
  simp only [hmemory]
  refine ⟨?_, hreturned.result_eq, hreturned.lcl_eq, hreturned.arg_eq, hreturned.this_eq,
    hreturned.that_eq⟩
  rw [hreturned.sp_eq, BitVec.toNat_ofNat, hplace]
  omega

/-- A function that calls itself with the argument zero if its own argument is not zero, and negates
the result. -/
def callUnit : SourceFile where
  path := Files.Path.ofText "A.vm"
  bytes := ("function A.f 0\npush argument 0\nif-goto A\npush constant 7\ngoto B\nlabel A\n" ++
    "push constant 0\ncall A.f 1\nlabel B\nneg\nreturn\n").toUTF8

/-- Its instructions. -/
def callProgram : List Placed :=
  let s : Scope := { unitName := "A", functionName := "A.f" }
  let t : Scope := { s with labelsUsed := 1 }
  [⟨{ unitName := "A" }, .function "A.f" 0⟩, ⟨s, .push .argument 0⟩, ⟨s, .ifGoto "A"⟩,
    ⟨s, .push .constant 7⟩, ⟨s, .goto "B"⟩, ⟨s, .label "A"⟩, ⟨s, .push .constant 0⟩,
    ⟨s, .call "A.f" 1⟩, ⟨t, .label "B"⟩, ⟨t, .operation .neg⟩, ⟨t, .ret⟩]

/-- A computer at the call, with an argument that is not zero. -/
def callStart : State where
  data := { ram := (((Ram.zeros 257).put 0 257).put 4 5).put 256 1 }
  pc := 31

/-- The run of the function, with that of the call in it. -/
def callRun : Option (List Nat × Nat × Memory) :=
  runThrough Instruction.operands (Layout.ofCode (codeOf callProgram)).address callProgram
    [1, 2, 5, 6, 7, 0, 1, 2, 3, 4, 8, 9, 10, 8, 9, 10]
    ([257], 0, pushFrame (BitVec.ofNat 16 (startOf callProgram 8)) 1 callStart.data.ram.memory)

theorem callRun_eq :
    callRun.map (fun (starts, k, m) => (starts, k, m.cell .lcl, m.cell .sp, m 262)) =
      some ([257], 10, 262, 263, 7) := by
  decide +kernel

theorem computer_returns_from_call :
    ∃ text words st', compile [callUnit] false false = .ok text ∧ assemble text = .ok words ∧
      Computer.Reaches { rom := words } callStart st' ∧
      Computer.At { rom := words } (startOf callProgram 8) st' ∧
      (st'.data.ram.memory.cell .sp).toNat = 257 ∧ st'.data.ram.memory 256 = 7 ∧
      st'.data.ram.memory.cell .that = 5 := by
  obtain ⟨text, words, hcompile, hassemble⟩ := exists_words [callUnit] false false
    (by decide +kernel)
  have hpaths : PathsAreProper [callUnit] :=
    pathsAreProper_of_text fun file hfile => ⟨"A.vm", List.mem_singleton.1 hfile ▸ rfl⟩
  have hprogram : callProgram = programOf [callUnit] false := by decide +kernel
  have hsize : words.size ≤ 32767 := by
    rw [size_of_compile hpaths hcompile hassemble, ← hprogram]
    decide +kernel
  obtain ⟨⟨starts, k, m₂⟩, hrun, hends⟩ := Option.map_eq_some_iff.1 callRun_eq
  simp only [Prod.mk.injEq] at hends
  obtain ⟨rfl, rfl, hlcl, hsp, hvalue⟩ := hends
  have hplace : startOf callProgram 7 = 31 := by decide +kernel
  have hentry : startOf callProgram 0 = (Layout.ofCode (codeOf callProgram)).address "A.f" := by
    decide +kernel
  have hstack : (callStart.data.ram.memory.cell .sp).toNat = 257 := by decide +kernel
  have hbefore : callStart.data.ram.memory.cell .that = 5 := by decide +kernel
  have hrun' := disciplinedRun_of_runThrough hrun
  rw [← hstack] at hrun'
  obtain ⟨st', hreach, hat, hsp', hresult, -, -, -, hthat⟩ := computer_returns hpaths hcompile
    hassemble hsize (c := { rom := words }) rfl hprogram rfl (k := 7) (n := 1) rfl hentry
    ⟨by rw [hplace]; rfl, fun _ h => absurd h List.not_mem_nil⟩ rfl rfl (Nat.le_of_eq hstack.symm)
    (by rw [hstack]; decide) hrun' rfl (by rw [hlcl, hsp]; decide)
  rw [hsp] at hresult
  rw [hstack] at hsp' hresult
  exact ⟨text, words, st', hcompile, hassemble, hreach, hat, hsp', hresult.trans hvalue,
    hthat.trans hbefore⟩

/-- A function that negates before it has put anything on its working stack, and a call at the end
of the program. -/
def spoilUnit : SourceFile where
  path := Files.Path.ofText "A.vm"
  bytes := ("goto A.main\nfunction A.f 0\nneg\npush constant 7\nreturn\n" ++
    "function A.main 0\ncall A.f 0\n").toUTF8

/-- Its instructions. -/
def spoilProgram : List Placed :=
  let s : Scope := { unitName := "A" }
  let f : Scope := { s with functionName := "A.f" }
  [⟨s, .goto "A.main"⟩, ⟨s, .function "A.f" 0⟩, ⟨f, .operation .neg⟩, ⟨f, .push .constant 7⟩,
    ⟨f, .ret⟩, ⟨f, .function "A.main" 0⟩, ⟨{ s with functionName := "A.main" }, .call "A.f" 0⟩]

/-- A computer at the call. -/
def spoilStart : State where
  data := { ram := ((Ram.zeros 5).put 0 256).put 4 5 }
  pc := 62

/-- The run of the function, in which `SP` stays above `LCL`. -/
def spoilRun : Option (List Nat × Nat × Memory) :=
  runThrough Instruction.descent (Layout.ofCode (codeOf spoilProgram)).address spoilProgram
    [2, 3, 4] ([256], 1, pushFrame (BitVec.ofNat 16 (startOf spoilProgram 7)) 0
      spoilStart.data.ram.memory)

theorem spoilRun_eq :
    spoilRun.map (fun (starts, k, m) => (starts, k, m.cell .lcl, m.cell .sp,
        (popFrame .inMemory m).1.toNat, (popFrame .inMemory m).2.cell .that)) =
      some ([256], 4, 261, 262, startOf spoilProgram 7, -5) := by
  decide +kernel

/-- The machine may come back from a call with another base cell if an operation is applied to an
empty working stack, even though `SP` never falls below `LCL`: the operation changes the frame. -/
theorem operation_spoils_frame : ¬ CallsReturn Instruction.descent := by
  intro hreturns
  obtain ⟨text, words, hcompile, hassemble⟩ := exists_words [spoilUnit] false false
    (by decide +kernel)
  have hpaths : PathsAreProper [spoilUnit] :=
    pathsAreProper_of_text fun file hfile => ⟨"A.vm", List.mem_singleton.1 hfile ▸ rfl⟩
  have hprogram : spoilProgram = programOf [spoilUnit] false := by decide +kernel
  have hcount : words.size = startOf spoilProgram 7 := by
    rw [size_of_compile hpaths hcompile hassemble, ← hprogram]
    rfl
  have hsize : words.size < 0x8000 := by
    rw [hcount]
    decide +kernel
  obtain ⟨⟨starts, k, m₂⟩, hrun, hends⟩ := Option.map_eq_some_iff.1 spoilRun_eq
  simp only [Prod.mk.injEq] at hends
  obtain ⟨rfl, rfl, hlcl, hsp, hback, hspoiled⟩ := hends
  have hplace : startOf spoilProgram 6 = 62 := by decide +kernel
  have hentry : startOf spoilProgram 1 = (Layout.ofCode (codeOf spoilProgram)).address "A.f" := by
    decide +kernel
  have hstack : (spoilStart.data.ram.memory.cell .sp).toNat = 256 := by decide
  have hrun' := disciplinedRun_of_runThrough hrun
  have hcall : spoilProgram[6]? =
    some ⟨{ unitName := "A", functionName := "A.main" }, .call "A.f" (0 : Nat)⟩ := rfl
  have hret : spoilProgram[4]? = some ⟨{ unitName := "A", functionName := "A.f" }, .ret⟩ := rfl
  have harrives : Computer.Arrives { rom := words } (startOf spoilProgram 6) spoilStart :=
    ⟨by rw [hplace]; rfl, fun _ h => absurd h List.not_mem_nil⟩
  -- the machine comes back, and stops there, with another value in `THAT`
  have hb : Built spoilProgram text words :=
    hprogram ▸ built_of_compile hpaths hcompile hassemble hsize
  obtain ⟨u, hreach, hat, hmemory⟩ := hb.follows_call hsize (c := { rom := words })
    (isAddressing_ofCode _) hcall hentry harrives rfl hrun' hret
  rw [hback] at hat
  have hend : words.size ≤ startOf spoilProgram 7 := Nat.le_of_eq hcount
  -- so it does not stop there with the value that `THAT` had
  rw [← hstack] at hrun'
  obtain ⟨st', hreach', hat', -, -, -, -, -, hthat⟩ := hreturns hpaths hcompile hassemble
    (Nat.le_of_lt_succ hsize) (c := { rom := words }) rfl hprogram rfl hcall hentry harrives rfl rfl
    (by decide) (by decide) hrun' hret (by rw [hlcl, hsp]; decide)
  have hsame : st'.data = u.data := by
    rcases hreach.total hreach' with h | h
    · exact hat.toArrives.data_eq_of_reaches hend h
    · exact (hat'.toArrives.data_eq_of_reaches hend h).symm
  rw [hsame, hmemory, hspoiled] at hthat
  exact absurd hthat (by decide)

end HackToolchain.VM
