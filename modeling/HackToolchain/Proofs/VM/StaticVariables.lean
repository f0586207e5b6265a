import HackToolchain.Proofs.VM.BlockExecution

/-!
# Static variables

Each unit has static variables of its own.  Their symbols are declared nowhere, so that the
assembler gives each a cell when it comes to the first use, together with all other undeclared
symbols of the program.

* `works_on_static`: a push or a pop of a static variable works on the cell of its symbol;
* `static_cells_differ`: two of them work on the same cell only if they stand in units of the same
  name and have the same index, and no such cell is one of the first sixteen.
-/

namespace HackToolchain.VM

open Asm Machine Code Text

/-! ### Cells of static variables -/

/-- The index of the static variable that an instruction pushes or pops. -/
def Instruction.staticIndex? : Instruction → Option Int
  | .push .static index | .pop .static index => some index
  | _ => none

/-- What a push or a pop makes of a memory if it works on the given cell. -/
def Instruction.onCell (cell : Value) (m : Memory) : Instruction → Memory
  | .pop .. => popTo .inMemory cell m
  | _ => m.push (m cell)

/-- An instruction of an assembled program works on a cell.  The first word of its code loads the
address of the cell, and the code pushes the value of the cell or pops into the cell. -/
structure WorksOn (words : Array Int) (program : List Placed) (k : Nat) (i : Instruction)
    (cell : Value) : Prop where
  /-- The address of the cell is loaded. -/
  word_eq : words[startOf program k]? = some (cell.toNat : Int)
  /-- The code does what the instruction does on the cell, wherever the machine comes from. -/
  executes : ∀ c : Computer, c.rom = words → ∀ st, c.At (startOf program k) st →
    ∃ st', c.Reaches st st' ∧ c.At (startOf program (k + 1)) st' ∧
      st'.data.ram.memory = i.onCell cell st.data.ram.memory

section Static

variable {program : List Placed} {k : Nat} {p : Placed} {index : Int}

theorem eq_of_staticIndex? {i : Instruction} (hi : i.staticIndex? = some index) :
    i = .push .static index ∨ i = .pop .static index := by
  unfold Instruction.staticIndex? at hi
  split at hi
  · cases hi
    exact .inl rfl
  · cases hi
    exact .inr rfl
  · cases hi

/-- The symbols in the code of a push or a pop of a static variable. -/
theorem symbols_static {i : Instruction} (hi : i.staticIndex? = some index) (s : Scope) :
    ∃ cells : List Cell, symbols (i.code s) = s.staticSymbol index :: cells.map Cell.symbol := by
  rcases eq_of_staticIndex? hi with rfl | rfl
  · exact ⟨[.sp, .sp], rfl⟩
  · exact ⟨[.r13, .sp, .r13], rfl⟩

/-- The symbol of a static variable that is no label is a variable, and has the cell of its place
among them. -/
theorem address_of_static (hp : p ∈ program) (hi : p.instruction.staticIndex? = some index)
    (hlabel : p.scope.staticSymbol index ∉ labels (codeOf program)) :
    p.scope.staticSymbol index ∈ variableNames ((codeOf program).map Statement.reread) ∧
      (Layout.ofCode (codeOf program)).address (p.scope.staticSymbol index) =
        MemoryMap.variableBase +
          (variableNames ((codeOf program).map Statement.reread)).idxOf
            (p.scope.staticSymbol index) := by
  obtain ⟨hdigits, hpredefined⟩ := Scope.staticSymbol_ne p.scope index
  have hunknown : MemoryMap.predefined? (p.scope.staticSymbol index) = none ∧
      p.scope.staticSymbol index ∉ labels ((codeOf program).map Statement.reread) := by
    rw [labels_map_reread]
    exact ⟨hpredefined, hlabel⟩
  have huse : p.scope.staticSymbol index ∈ symbols (codeOf program) := by
    obtain ⟨cells, hcells⟩ := symbols_static hi p.scope
    have hmem : p.scope.staticSymbol index ∈ symbols p.code := hcells ▸ List.mem_cons_self
    exact mem_symbols.2 (List.mem_flatMap.2 ⟨p, hp, mem_symbols.1 hmem⟩)
  refine ⟨mem_variableNames.2 ⟨?_, hunknown⟩, ?_⟩
  · rw [symbols_map_reread, List.mem_filter, hdigits]
    exact ⟨huse, rfl⟩
  · simp only [Layout.ofCode, hdigits, symbolAddress, knownAddress?_eq_none.2 hunknown,
      Option.getD_none]

/-- A push or a pop of a static variable works on the cell of its symbol. -/
theorem works_on_static {words : Array Int} (hreadable : ∀ x ∈ codeOf program, x.IsReadable)
    (hcode : assembleStatements ((codeOf program).map Statement.reread) = .ok words)
    (hp : program[k]? = some p) (hlegal : p.instruction.IsLegal)
    (hi : p.instruction.staticIndex? = some index)
    (hlt : (Layout.ofCode (codeOf program)).address (p.scope.staticSymbol index) < 0x8000) :
    WorksOn words program k p.instruction (BitVec.ofNat 16
      ((Layout.ofCode (codeOf program)).address (p.scope.staticSymbol index))) := by
  have hloaded {c : Computer} (hrom : c.rom = words) :
      Loaded c (.ofCode (codeOf program)) (startOf program k) p.code := by
    subst hrom
    refine loaded_block hreadable hcode hp fun name hname => ?_
    obtain ⟨cells, hcells⟩ := symbols_static hi p.scope
    rw [Placed.code, hcells, List.mem_cons, List.mem_map] at hname
    rcases hname with rfl | ⟨cell, -, rfl⟩
    · exact hlt
    · rw [Layout.address_symbol]
      cases cell <;> decide
  -- the code has no jump, starts with the address of the cell, and does what the instruction does
  have hcode : p.instruction.isStraight = true ∧
      (∃ rest, p.code = .address (.symbol (p.scope.staticSymbol index)) :: rest) ∧
      ∀ m next,
        p.instruction.step .inMemory (Layout.ofCode (codeOf program)).address p.scope next m =
          (next, p.instruction.onCell (BitVec.ofNat 16
            ((Layout.ofCode (codeOf program)).address (p.scope.staticSymbol index))) m) := by
    rw [Placed.code]
    rcases eq_of_staticIndex? hi with heq | heq
    · rw [heq]
      exact ⟨rfl, ⟨_, rfl⟩, fun _ _ => rfl⟩
    · rw [heq]
      exact ⟨rfl, ⟨_, rfl⟩, fun _ _ => rfl⟩
  obtain ⟨hstraight, ⟨rest, hrest⟩, hstep⟩ := hcode
  refine ⟨?_, fun c hrom st hat => ?_⟩
  · have hl := hloaded (c := { rom := words }) rfl
    rw [hrest] at hl
    obtain ⟨⟨n, hn, -, hword⟩, -⟩ := hl
    have hsame : (Layout.ofCode (codeOf program)).address (p.scope.staticSymbol index) = n :=
      Int.ofNat_inj.1 hn
    rw [toNat_address hlt, hsame]
    exact hword
  · obtain ⟨st', hreach, hat', hmemory⟩ := Loaded.reaches_of_isReady (hloaded hrom)
      (isStraight_code hstraight) (isReady_code hstraight) hat
    refine ⟨st', hreach, by rwa [startOf_succ hp], hmemory.trans ?_⟩
    have hview := (hstep (View.ofStorage st.data).memory 0).symm.trans
      (memory_code _ hstraight hlegal 0)
    exact (congrArg Prod.snd hview).symm

end Static

section Program

variable {files : List SourceFile} {bootstrap comments : Bool} {text : List String}
  {words : Array Int} {read : List Statement}

/-- A push or a pop of a static variable works on the cell that the place of its symbol among the
variables of the program gives it. -/
theorem exists_static_cell (hpaths : PathsAreProper files)
    (hcompile : compile files bootstrap comments = .ok text)
    (hassemble : assemble text = .ok words) (hread : readStatements text = .ok read)
    (hvariables : (variableNames read).length < 32752)
    (hstatics : StaticsAreVariables (programOf files bootstrap) text) {k : Nat} {p : Placed}
    {i : Int} (hp : (programOf files bootstrap)[k]? = some p)
    (hi : p.instruction.staticIndex? = some i) :
    ∃ a, WorksOn words (programOf files bootstrap) k p.instruction a ∧ 0 ≤ i ∧
      p.scope.staticSymbol i ∈ variableNames read ∧
      a.toNat = 16 + (variableNames read).idxOf (p.scope.staticSymbol i) := by
  obtain ⟨hwell, hdeclared, -⟩ := readable_of_compile hpaths hcompile
  obtain ⟨hread', hreadable, hcode⟩ := assembled_of_compile hpaths hcompile hassemble
  rw [hread'] at hread
  injection hread with hread
  subst hread
  have hmem := List.mem_of_getElem? hp
  -- a static variable is no label, so that it is allocated a cell
  have hlabel : p.scope.staticSymbol i ∉ labels (codeOf (programOf files bootstrap)) := by
    rw [← hdeclared]
    refine hstatics p hmem _ ?_
    rcases eq_of_staticIndex? hi with heq | heq <;> simp [heq, Instruction.static?]
  have hcount : i ∈ p.instruction.count? := by
    rcases eq_of_staticIndex? hi with heq | heq <;> simp [heq, Instruction.count?]
  obtain ⟨hvariable, haddress⟩ := address_of_static hmem hi hlabel
  have hbase : MemoryMap.variableBase = 16 := rfl
  have hplace := List.idxOf_lt_length_of_mem hvariable
  -- its cell has an address that an instruction can hold
  have hlt : (Layout.ofCode (codeOf (programOf files bootstrap))).address
      (p.scope.staticSymbol i) < 0x8000 := by
    omega
  exact ⟨_, works_on_static hreadable hcode hp (hwell p hmem).isLegal hi hlt,
    (hwell p hmem).isCounted i hcount, hvariable, by rw [toNat_address hlt, haddress, hbase]⟩

/-- Two pushes or pops of static variables, anywhere in a program that is compiled and assembled,
work on the same cell if and only if they stand in units of the same name and have the same index.
No such cell is one of the first sixteen, which are the registers, the segments that the registers
point to and the temporary cells. -/
theorem static_cells_differ (hpaths : PathsAreProper files)
    (hcompile : compile files bootstrap comments = .ok text)
    (hassemble : assemble text = .ok words) (hread : readStatements text = .ok read)
    (hvariables : (variableNames read).length < 32752)
    (hstatics : StaticsAreVariables (programOf files bootstrap) text) {k l : Nat} {p q : Placed}
    {i j : Int} (hp : (programOf files bootstrap)[k]? = some p)
    (hi : p.instruction.staticIndex? = some i) (hq : (programOf files bootstrap)[l]? = some q)
    (hj : q.instruction.staticIndex? = some j) :
    ∃ a b, WorksOn words (programOf files bootstrap) k p.instruction a ∧
      WorksOn words (programOf files bootstrap) l q.instruction b ∧
      16 ≤ a.toNat ∧ 16 ≤ b.toNat ∧
      (a = b ↔ p.scope.unitName = q.scope.unitName ∧ i = j) := by
  obtain ⟨a, ha, hi0, hamem, haplace⟩ :=
    exists_static_cell hpaths hcompile hassemble hread hvariables hstatics hp hi
  obtain ⟨b, hb, hj0, hbmem, hbplace⟩ :=
    exists_static_cell hpaths hcompile hassemble hread hvariables hstatics hq hj
  -- the cell tells the place among the variables, the place the symbol, and the symbol both parts
  refine ⟨a, b, ha, hb, by omega, by omega, fun hab => ?_, fun ⟨hunit, hindex⟩ => ?_⟩
  · have hplace : (variableNames read).idxOf (p.scope.staticSymbol i) =
        (variableNames read).idxOf (q.scope.staticSymbol j) := by
      rw [hab] at haplace
      omega
    exact Scope.staticSymbol_inj hi0 hj0 ((List.idxOf_inj hamem).1 hplace)
  · have hsymbol : p.scope.staticSymbol i = q.scope.staticSymbol j := by
      rw [Scope.staticSymbol, Scope.staticSymbol, hunit, hindex]
    rw [hsymbol] at haplace
    exact BitVec.eq_of_toNat_eq (haplace.trans hbplace.symm)

end Program

/-- Two units, one of which pops into the static variable that the other seems to push. -/
def staticUnits : List SourceFile :=
  [⟨Files.Path.ofText "A.vm", "pop static 1\n".toUTF8⟩,
    ⟨Files.Path.ofText "A.1.vm", "push static 1\n".toUTF8⟩]

theorem static_cells_differ_staticUnits :
    ∃ text words, compile staticUnits false false = .ok text ∧ assemble text = .ok words ∧
      ∃ a b, WorksOn words (programOf staticUnits false) 0 (.pop .static 1) a ∧
        WorksOn words (programOf staticUnits false) 1 (.push .static 1) b ∧
        16 ≤ a.toNat ∧ 16 ≤ b.toNat ∧ a ≠ b := by
  obtain ⟨text, words, hcompile, hassemble⟩ := exists_words staticUnits false false
    (by decide +kernel)
  have hpaths : PathsAreProper staticUnits := by
    unfold PathsAreProper
    decide +kernel
  obtain ⟨-, hdeclared, -⟩ := readable_of_compile hpaths hcompile
  obtain ⟨hread, -, -⟩ := assembled_of_compile hpaths hcompile hassemble
  have hsymbols : (symbols (codeOf (programOf staticUnits false))).length < 32752 := by
    decide +kernel
  have hstatics : StaticsAreVariables (programOf staticUnits false) text := by
    have hlabels : labels (codeOf (programOf staticUnits false)) = [] := by decide +kernel
    intro p _ name _
    rw [hdeclared, hlabels]
    exact List.not_mem_nil
  have hplaced : (programOf staticUnits false)[0]? =
        some ⟨{ unitName := "A" }, .pop .static 1⟩ ∧
      (programOf staticUnits false)[1]? = some ⟨{ unitName := "A.1" }, .push .static 1⟩ := by
    decide +kernel
  obtain ⟨a, b, ha, hb, ha16, hb16, hiff⟩ := static_cells_differ hpaths hcompile hassemble hread
    (Nat.lt_of_le_of_lt (variableNames_le _) hsymbols) hstatics hplaced.1 rfl hplaced.2 rfl
  refine ⟨text, words, hcompile, hassemble, a, b, ha, hb, ha16, hb16, fun hab => ?_⟩
  exact absurd (hiff.1 hab).1 (by decide)

end HackToolchain.VM
