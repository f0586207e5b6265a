import HackToolchain.MemoryMap
import HackToolchain.Proofs.Machine.Execution

/-!
# Running loaded code

Statements that have been assembled and put into the program memory run as `View.executeAll` says,
as long as none of them jumps.

A `Layout` gives symbols their addresses.  `Loaded` says that statements stand in the program
memory from an address on: each instruction as its word, and each label at its address.

* `Loaded.append_iff`: the parts of code are loaded one behind the other;
* `Loaded.reaches`: code without jumps runs to its end;
* `Loaded.reaches_of_address`: so does code that starts with an address, whatever `A` holds.
-/

namespace HackToolchain.Machine

open Asm

/-! ### Layouts -/

/-- The addresses of symbols. -/
structure Layout where
  /-- The address of a symbol. -/
  address : String → Nat
  /-- The symbol of a register cell stands for that cell. -/
  address_symbol : ∀ cell : Cell, address cell.symbol = cell.address

/-- The number that an address stands for. -/
def Layout.resolve (σ : Layout) : Address → Int
  | .literal n => n
  | .symbol name => σ.address name

/-- The number of words that statements take. -/
def wordCount (code : List Statement) : Nat :=
  code.countP Statement.isInstruction

@[simp] theorem wordCount_nil : wordCount [] = 0 := rfl

@[simp] theorem wordCount_address (x : Address) (code : List Statement) :
    wordCount (.address x :: code) = wordCount code + 1 :=
  List.countP_cons_of_pos rfl

@[simp] theorem wordCount_compute (k : Compute) (code : List Statement) :
    wordCount (.compute k :: code) = wordCount code + 1 :=
  List.countP_cons_of_pos rfl

@[simp] theorem wordCount_label (name : String) (code : List Statement) :
    wordCount (.label name :: code) = wordCount code :=
  List.countP_cons_of_neg Bool.false_ne_true

@[simp] theorem wordCount_append (xs ys : List Statement) :
    wordCount (xs ++ ys) = wordCount xs + wordCount ys :=
  List.countP_append

/-! ### Loaded code -/

/-- The statements stand in the program memory from an address on. -/
def Loaded (c : Computer) (σ : Layout) : Nat → List Statement → Prop
  | _, [] => True
  | pc, .label name :: code => σ.address name = pc ∧ Loaded c σ pc code
  | pc, .address x :: code =>
    (∃ n : Nat, σ.resolve x = n ∧ n < 0x8000 ∧ c.rom[pc]? = some (n : Int)) ∧
      Loaded c σ (pc + 1) code
  | pc, .compute k :: code => c.rom[pc]? = some (k.encode : Int) ∧ Loaded c σ (pc + 1) code

theorem Loaded.append_iff {c : Computer} {σ : Layout} {pc : Nat} {xs ys : List Statement} :
    Loaded c σ pc (xs ++ ys) ↔ Loaded c σ pc xs ∧ Loaded c σ (pc + wordCount xs) ys := by
  induction xs generalizing pc with
  | nil => simp [Loaded]
  | cons x xs ih =>
    cases x with
    | label name => simp [Loaded, ih, and_assoc]
    | address x =>
      have h : pc + 1 + wordCount xs = pc + (wordCount xs + 1) := by omega
      simp [Loaded, ih, and_assoc, h]
    | compute k =>
      have h : pc + 1 + wordCount xs = pc + (wordCount xs + 1) := by omega
      simp [Loaded, ih, and_assoc, h]

/-! ### Code without jumps -/

/-- The statement goes on to the next one. -/
def IsStraight : Statement → Prop
  | .compute k => k.jump = .never
  | _ => True

instance : DecidablePred IsStraight
  | .compute k => inferInstanceAs (Decidable (k.jump = .never))
  | .label _ => .isTrue trivial
  | .address _ => .isTrue trivial

namespace View

variable (σ : Layout)

/-- The view after a statement. -/
def execute (v : View) : Statement → View
  | .address x => { v with a := BitVec.ofInt 16 (σ.resolve x) }
  | .label _ => v
  | .compute k => v.compute k

/-- The view after some statements. -/
def executeAll (v : View) (code : List Statement) : View :=
  code.foldl (execute σ) v

@[simp] theorem executeAll_nil (v : View) : v.executeAll σ [] = v := rfl

@[simp] theorem executeAll_cons (v : View) (x : Statement) (code : List Statement) :
    v.executeAll σ (x :: code) = (v.execute σ x).executeAll σ code := rfl

@[simp] theorem executeAll_append (v : View) (xs ys : List Statement) :
    v.executeAll σ (xs ++ ys) = (v.executeAll σ xs).executeAll σ ys :=
  List.foldl_append

end View

variable {c : Computer} {σ : Layout} {pc : Nat} {s : State} {v : View} {code : List Statement}

/-- The address of a symbol in use fits an instruction. -/
theorem Loaded.address_lt (hl : Loaded c σ pc code) (name : String)
    (hname : .address (.symbol name) ∈ code) : σ.address name < 0x8000 := by
  induction code generalizing pc with
  | nil => cases hname
  | cons x code ih =>
    rcases List.mem_cons.1 hname with rfl | hmem
    · obtain ⟨⟨n, hn, hlt, -⟩, -⟩ := hl
      have : σ.address name = n := Int.ofNat_inj.1 hn
      omega
    · cases x with
      | label other => exact ih hl.2 hmem
      | address x => exact ih hl.2 hmem
      | compute k => exact ih hl.2 hmem

theorem toNat_address {name : String} (h : σ.address name < 0x8000) :
    (BitVec.ofNat 16 (σ.address name)).toNat = σ.address name := by
  rw [BitVec.toNat_ofNat]
  omega

/-- An address is loaded, whatever the register `A` held. -/
theorem Loaded.step_address {x : Address} (hl : Loaded c σ pc (.address x :: code))
    (hat : c.At pc s) (hd : BitVec.ofInt 16 s.data.d = v.d)
    (hm : s.data.ram.memory = v.memory) :
    ∃ s', c.step s = .ok s' ∧ c.At (pc + 1) s' ∧ s'.data.Shows (v.execute σ (.address x)) := by
  obtain ⟨⟨n, hx, hn, hw⟩, -⟩ := hl
  obtain ⟨s', hstep, hat', hdata⟩ := Computer.step_address hat hw hn
  refine ⟨s', hstep, hat', ?_⟩
  rw [hdata]
  refine ⟨?_, hd, hm⟩
  simp only [View.execute, hx, BitVec.ofInt_natCast, BitVec.toNat_ofNat]
  omega

/-- Code without jumps runs to its end. -/
theorem Loaded.reaches (hl : Loaded c σ pc code) (hs : ∀ x ∈ code, IsStraight x)
    (hat : c.At pc s) (hv : s.data.Shows v) :
    ∃ s', c.Reaches s s' ∧ c.At (pc + wordCount code) s' ∧
      s'.data.Shows (v.executeAll σ code) := by
  induction code generalizing pc s v with
  | nil => exact ⟨s, .refl s, hat, hv⟩
  | cons x code ih =>
    have hs' : ∀ y ∈ code, IsStraight y := fun y hy => hs y (List.mem_cons_of_mem _ hy)
    cases x with
    | label name =>
      rw [wordCount_label]
      exact ih hl.2 hs' hat hv
    | address x =>
      obtain ⟨s', hstep, hat', hv'⟩ := hl.step_address hat hv.d hv.memory
      obtain ⟨t, hreach, hat'', ht⟩ := ih hl.2 hs' hat' hv'
      refine ⟨t, .head hstep hreach, ?_, ht⟩
      rwa [wordCount_address, Nat.add_comm _ 1, ← Nat.add_assoc]
    | compute k =>
      have hjump : k.jump = .never := hs (.compute k) List.mem_cons_self
      obtain ⟨s', hstep, hv', hnext, -⟩ := Computer.step_compute hat hv hl.1
      have hat' := hnext (by rw [hjump]; rfl)
      obtain ⟨t, hreach, hat'', ht⟩ := ih hl.2 hs' hat' hv'
      refine ⟨t, .head hstep hreach, ?_, ht⟩
      rwa [wordCount_compute, Nat.add_comm _ 1, ← Nat.add_assoc]

/-- The first instruction, if there is one, loads an address. -/
def IsReady : List Statement → Prop
  | [] => True
  | .label _ :: code => IsReady code
  | .address _ :: _ => True
  | .compute _ :: _ => False

/-- What the machine shows when the register `A` does not matter. -/
def View.ofStorage (data : Storage) : View where
  a := 0
  d := BitVec.ofInt 16 data.d
  memory := data.ram.memory

/-- Code without jumps that starts with an address runs to its end, whatever the register `A`
held. -/
theorem Loaded.reaches_of_address {x : Address} (hl : Loaded c σ pc (.address x :: code))
    (hs : ∀ y ∈ code, IsStraight y) (hat : c.At pc s) :
    ∃ s', c.Reaches s s' ∧ c.At (pc + wordCount (.address x :: code)) s' ∧
      s'.data.Shows ((View.ofStorage s.data).executeAll σ (.address x :: code)) := by
  obtain ⟨s', hstep, hat', hv'⟩ :=
    hl.step_address (v := View.ofStorage s.data) hat rfl rfl
  obtain ⟨t, hreach, hat'', ht⟩ := hl.2.reaches hs hat' hv'
  refine ⟨t, .head hstep hreach, ?_, ht⟩
  rwa [wordCount_address, Nat.add_comm _ 1, ← Nat.add_assoc]

/-- Code without jumps that does not rely on the register `A` runs to its end. -/
theorem Loaded.reaches_of_isReady (hl : Loaded c σ pc code) (hs : ∀ x ∈ code, IsStraight x)
    (hready : IsReady code) (hat : c.At pc s) :
    ∃ s', c.Reaches s s' ∧ c.At (pc + wordCount code) s' ∧
      s'.data.ram.memory = ((View.ofStorage s.data).executeAll σ code).memory := by
  induction code with
  | nil => exact ⟨s, .refl s, hat, rfl⟩
  | cons x code ih =>
    have hs' : ∀ y ∈ code, IsStraight y := fun y hy => hs y (List.mem_cons_of_mem _ hy)
    cases x with
    | label name =>
      rw [wordCount_label]
      exact ih hl.2 hs' hready
    | address x =>
      obtain ⟨s', hreach, hat', hv⟩ := hl.reaches_of_address hs' hat
      exact ⟨s', hreach, hat', hv.memory⟩
    | compute k => exact hready.elim

/-- Code without jumps that starts with an address, and then a jump. -/
theorem Loaded.reaches_jump {x : Address} {k : Compute}
    (hl : Loaded c σ pc (code ++ [.compute k])) (hx : code.head? = some (.address x))
    (hs : ∀ y ∈ code, IsStraight y) (hk : k.dest = Dest.none) (hat : c.At pc s) :
    let v := (View.ofStorage s.data).executeAll σ code
    let place := pc + wordCount code
    ∃ s', c.Reaches s s' ∧ s'.data.ram.memory = v.memory ∧
      (k.jump.holds (v.result k) = false → c.At (place + 1) s') ∧
      (k.jump.holds (v.result k) = true → c.Arrives v.a.toNat s' ∧
        ((k.jump = .always → ¬ c.IsIdle place v.a.toNat) → c.At v.a.toNat s')) := by
  intro v place
  obtain ⟨hfront, hback⟩ := Loaded.append_iff.1 hl
  obtain ⟨rest, rfl⟩ := List.head?_eq_some_iff.1 hx
  obtain ⟨t, hreach, hat', ht⟩ :=
    hfront.reaches_of_address (fun y hy => hs y (List.mem_cons_of_mem _ hy)) hat
  obtain ⟨s', hstep, hv', hnext, hjump⟩ := Computer.step_compute hat' ht hback.1
  refine ⟨s', hreach.trans (.single hstep), ?_, hnext, hjump⟩
  rw [hv'.memory, View.compute, hk]
  rfl

end HackToolchain.Machine
