import HackToolchain.Asm.Assembler
import Mathlib.Data.List.Basic
import Mathlib.Data.List.Induction

/-!
# The two passes of the assembler

What a program is assembled to, without mention of the table that the passes thread through.

The first pass gives each label the number of instructions before it (`labelAddress?`), the second
gives the other symbols cells in the order of their first use (`variableNames`).  Together with the
predefined symbols this gives every symbol its address (`symbolAddress`).

* `bindLabels_eq_ok`: the first pass succeeds only if the labels are different from each other and
  from the predefined symbols, and then the table gives the addresses of both;
* `assembleStatements_eq_ok`: the words of a program are those of its instructions, each symbol
  standing for its address;
* `exists_bindLabels`, `exists_assembleStatements`: labels that differ from each other and from the
  predefined symbols are all that it takes.
-/

namespace HackToolchain.Asm

theorem mem_predefined {name : String} {address : Nat}
    (h : MemoryMap.predefined? name = some address) : (name, address) ∈ MemoryMap.predefined := by
  rw [MemoryMap.predefined?, List.lookup_eq_some_iff] at h
  obtain ⟨front, back, hsplit, -⟩ := h
  rw [hsplit]
  exact List.mem_append_right _ List.mem_cons_self

/-! ### Symbols of a program -/

/-- The name that a statement declares. -/
def Statement.label? : Statement → Option String
  | .label name => some name
  | _ => none

/-- The symbol that a statement uses. -/
def Statement.symbol? : Statement → Option String
  | .address (.symbol name) => some name
  | _ => none

/-- The labels of a program. -/
def labels (code : List Statement) : List String :=
  code.filterMap Statement.label?

@[simp] theorem labels_nil : labels [] = [] := rfl

@[simp] theorem labels_label (name : String) (code : List Statement) :
    labels (.label name :: code) = name :: labels code := rfl

@[simp] theorem labels_address (x : Address) (code : List Statement) :
    labels (.address x :: code) = labels code := rfl

@[simp] theorem labels_compute (k : Compute) (code : List Statement) :
    labels (.compute k :: code) = labels code := rfl

@[simp] theorem labels_append (xs ys : List Statement) :
    labels (xs ++ ys) = labels xs ++ labels ys :=
  List.filterMap_append

/-- The symbols that a program uses, in order. -/
def symbols (code : List Statement) : List String :=
  code.filterMap Statement.symbol?

@[simp] theorem symbols_nil : symbols [] = [] := rfl

@[simp] theorem symbols_symbol (name : String) (code : List Statement) :
    symbols (.address (.symbol name) :: code) = name :: symbols code := rfl

@[simp] theorem symbols_literal (n : Int) (code : List Statement) :
    symbols (.address (.literal n) :: code) = symbols code := rfl

@[simp] theorem symbols_label (name : String) (code : List Statement) :
    symbols (.label name :: code) = symbols code := rfl

@[simp] theorem symbols_compute (k : Compute) (code : List Statement) :
    symbols (.compute k :: code) = symbols code := rfl

@[simp] theorem symbols_append (xs ys : List Statement) :
    symbols (xs ++ ys) = symbols xs ++ symbols ys :=
  List.filterMap_append

/-- The address of a label, if there is one of the name in code that starts at `pc`. -/
def labelAddress? (name : String) (pc : Nat) : List Statement → Option Nat
  | [] => none
  | .label other :: code => if other = name then some pc else labelAddress? name pc code
  | .address _ :: code => labelAddress? name (pc + 1) code
  | .compute _ :: code => labelAddress? name (pc + 1) code

theorem mem_labels_iff_labelAddress? {name : String} (pc : Nat) {code : List Statement} :
    name ∈ labels code ↔ (labelAddress? name pc code).isSome := by
  induction code generalizing pc with
  | nil => simp [labelAddress?]
  | cons x code ih =>
    cases x with
    | label other =>
      rw [labels_label, List.mem_cons, labelAddress?, ih pc]
      by_cases hname : other = name
      · simp [hname]
      · simp [hname, Ne.symm hname]
    | address a => exact ih _
    | compute k => exact ih _

/-- The address of a symbol that is predefined or a label. -/
def knownAddress? (code : List Statement) (name : String) : Option Nat :=
  (MemoryMap.predefined? name).or (labelAddress? name 0 code)

/-- The symbols that are neither predefined nor labels, in the order of their first use. -/
def variableNames (code : List Statement) : List String :=
  ((symbols code).filter (knownAddress? code · |>.isNone)).eraseDups

/-- The address of a symbol. -/
def symbolAddress (code : List Statement) (name : String) : Nat :=
  (knownAddress? code name).getD (MemoryMap.variableBase + (variableNames code).idxOf name)

/-- The word of an instruction. -/
def Statement.word? (address : String → Nat) : Statement → Option Int
  | .address (.literal n) => some (addressWord n)
  | .address (.symbol name) => some (addressWord (address name))
  | .label _ => none
  | .compute k => some k.encode

theorem knownAddress?_eq_none {program : List Statement} {name : String} :
    knownAddress? program name = none ↔
      MemoryMap.predefined? name = none ∧ name ∉ labels program := by
  rw [knownAddress?, Option.or_eq_none_iff, mem_labels_iff_labelAddress? 0,
    Option.not_isSome_iff_eq_none]

/-- The remaining symbols are those in use that are neither predefined nor labels. -/
theorem mem_variableNames {program : List Statement} {name : String} :
    name ∈ variableNames program ↔
      name ∈ symbols program ∧ MemoryMap.predefined? name = none ∧ name ∉ labels program := by
  rw [variableNames, List.mem_eraseDups, List.mem_filter, Option.isNone_iff_eq_none,
    knownAddress?_eq_none]

/-! ### The first pass -/

theorem SymbolTable.getElem?_insert (table : SymbolTable) (key name : String) (address : Nat) :
    (table.insert key address)[name]? = if key = name then some address else table[name]? := by
  simp only [Std.TreeMap.getElem?_insert, Std.compare_eq_iff_eq]

theorem SymbolTable.getElem?_foldl_insert {entries : List (String × Nat)} {table : SymbolTable}
    (hentries : (entries.map Prod.fst).Nodup) (name : String) :
    (entries.foldl (fun table entry => table.insert entry.1 entry.2) table)[name]? =
      (entries.lookup name).or table[name]? := by
  induction entries generalizing table with
  | nil => rfl
  | cons entry entries ih =>
    rw [List.map_cons, List.nodup_cons] at hentries
    rw [List.foldl_cons, ih hentries.2, getElem?_insert]
    -- a name is entered once, so that a later entry cannot hide the first
    by_cases hname : entry.1 = name
    · have hlookup : entries.lookup name = none := by
        rw [List.lookup_eq_none_iff]
        intro p hp
        rw [bne_iff_ne]
        rintro rfl
        rw [hname] at hentries
        exact hentries.1 (List.mem_map_of_mem hp)
      rw [if_pos hname, hlookup, List.lookup_cons, hname, beq_self_eq_true]
      rfl
    · rw [if_neg hname, List.lookup_cons, (beq_eq_false_iff_ne).2 (Ne.symm hname)]

theorem SymbolTable.getElem?_initial (name : String) :
    SymbolTable.initial[name]? = MemoryMap.predefined? name := by
  rw [SymbolTable.initial, getElem?_foldl_insert (by decide), Std.TreeMap.getElem?_emptyc,
    Option.or_none, MemoryMap.predefined?]

/-- The first pass succeeds only if no label is declared twice or already in the table, and then it
adds the addresses of the labels. -/
theorem bindLabels_eq_ok {pc : Nat} {table table' : SymbolTable} {code : List Statement}
    (h : bindLabels pc table code = .ok table') :
    (labels code).Nodup ∧ (∀ name ∈ labels code, table[name]? = none) ∧
      ∀ name, table'[name]? = table[name]?.or (labelAddress? name pc code) := by
  induction code generalizing pc table with
  | nil =>
    injection h with h
    subst h
    exact ⟨List.nodup_nil, fun _ hname => absurd hname List.not_mem_nil,
      fun name => Option.or_none.symm⟩
  | cons x code ih =>
    cases x with
    | label other =>
      rw [bindLabels] at h
      split at h
      · cases h
      · rename_i hcontains
        rw [Bool.not_eq_true, Std.TreeMap.contains_eq_isSome_getElem?, Option.isSome_eq_false_iff,
          Option.isNone_iff_eq_none] at hcontains
        -- the rest of the pass starts from a table that has this label too
        obtain ⟨hnodup, hnew, htable⟩ := ih h
        simp only [SymbolTable.getElem?_insert] at hnew htable
        refine ⟨List.nodup_cons.2 ⟨fun hmem => ?_, hnodup⟩, fun name hname => ?_, fun name => ?_⟩
        · -- so it would be rejected if it declared the label again
          have := hnew other hmem
          rw [if_pos rfl] at this
          contradiction
        · rcases List.mem_cons.1 hname with rfl | hname
          · exact hcontains
          · have := hnew name hname
            split at this
            · contradiction
            · exact this
        · rw [htable, labelAddress?]
          by_cases hother : other = name
          · subst hother
            rw [if_pos rfl, if_pos rfl, hcontains]
            rfl
          · rw [if_neg hother, if_neg hother]
    | address x => exact ih h
    | compute k => exact ih h

/-- The first pass succeeds if no label is declared twice or already in the table. -/
theorem exists_bindLabels {code : List Statement} (hnodup : (labels code).Nodup) {pc : Nat}
    {table : SymbolTable} (hnew : ∀ name ∈ labels code, table[name]? = none) :
    ∃ table', bindLabels pc table code = .ok table' := by
  induction code generalizing pc table with
  | nil => exact ⟨table, rfl⟩
  | cons x code ih =>
    cases x with
    | label other =>
      rw [labels_label, List.nodup_cons] at hnodup
      have hcontains : ¬ table.contains other = true := by
        rw [Std.TreeMap.contains_eq_isSome_getElem?, hnew other List.mem_cons_self]
        exact Bool.false_ne_true
      rw [bindLabels, if_neg hcontains]
      refine ih hnodup.2 fun name hname => ?_
      have hne : other ≠ name := fun heq => hnodup.1 (heq ▸ hname)
      rw [SymbolTable.getElem?_insert, if_neg hne, hnew name (List.mem_cons_of_mem _ hname)]
    | address x => exact ih hnodup hnew
    | compute k => exact ih hnodup hnew

/-! ### The second pass -/

/-- The second pass has allocated cells for the unknown symbols seen so far. -/
structure Allocation.Tracks (alloc : Allocation) (known : String → Option Nat)
    (seen : List String) : Prop where
  next_eq : alloc.next = MemoryMap.variableBase + seen.eraseDups.length
  table_eq : ∀ name, alloc.table[name]? = (known name).or
    (if name ∈ seen then some (MemoryMap.variableBase + seen.eraseDups.idxOf name) else none)

theorem eraseDups_concat (seen : List String) (name : String) :
    (seen ++ [name]).eraseDups = seen.eraseDups ++ if name ∈ seen then [] else [name] := by
  rw [List.eraseDups_append]
  congr 1
  by_cases h : name ∈ seen
  · simp [List.removeAll, h]
  · simp [List.removeAll, h, List.eraseDups_cons]

theorem nodup_eraseDups (names : List String) : names.eraseDups.Nodup := by
  induction names using List.reverseRecOn with
  | nil => exact List.nodup_nil
  | append_singleton names name ih =>
    rw [eraseDups_concat]
    split
    · rwa [List.append_nil]
    · rename_i hmem
      rw [← List.mem_eraseDups] at hmem
      simp only [List.nodup_append, List.mem_singleton, forall_eq]
      exact ⟨ih, by simp, fun other hother heq => hmem (heq ▸ hother)⟩

/-- The first occurrences in a list stay where they are when the list goes on. -/
theorem idxOf_eraseDups_append {seen more : List String} {name : String} (h : name ∈ seen) :
    (seen ++ more).eraseDups.idxOf name = seen.eraseDups.idxOf name := by
  rw [List.eraseDups_append, List.idxOf_append_of_mem]
  rwa [List.mem_eraseDups]

/-- A symbol that is resolved has its address from then on. -/
theorem Allocation.Tracks.resolve {alloc : Allocation} {known : String → Option Nat}
    {seen : List String} (h : alloc.Tracks known seen) (name : String) :
    ∃ seen', seen' = seen ++ [name].filter (known · |>.isNone) ∧
      (alloc.resolve name).2.Tracks known seen' ∧
      (alloc.resolve name).1 =
        (known name).getD (MemoryMap.variableBase + seen'.eraseDups.idxOf name) := by
  refine ⟨_, rfl, ?_⟩
  cases hknown : known name with
  | some address =>
    -- a predefined symbol or a label: nothing is allocated
    have htable : alloc.table[name]? = some address := by
      rw [h.table_eq, hknown]
      rfl
    have hseen : [name].filter (known · |>.isNone) = [] := by
      simp [hknown]
    rw [hseen, List.append_nil]
    simp only [Allocation.resolve, htable]
    exact ⟨h, rfl⟩
  | none =>
    have hseen : [name].filter (known · |>.isNone) = [name] := by
      simp [hknown]
    rw [hseen]
    by_cases hmem : name ∈ seen
    · -- a symbol seen before: it stays at the place of its first use
      have htable : alloc.table[name]? =
          some (MemoryMap.variableBase + seen.eraseDups.idxOf name) := by
        rw [h.table_eq, hknown, if_pos hmem]
        rfl
      have hsame : (seen ++ [name]).eraseDups = seen.eraseDups := by
        rw [eraseDups_concat, if_pos hmem, List.append_nil]
      simp only [Allocation.resolve, htable, hsame]
      refine ⟨⟨by rw [hsame]; exact h.next_eq, fun other => ?_⟩, rfl⟩
      have hiff : other ∈ seen ++ [name] ↔ other ∈ seen := by
        rw [← List.mem_eraseDups, hsame, List.mem_eraseDups]
      rw [h.table_eq, hsame]
      simp only [hiff]
    · -- a new symbol: its first use comes behind all others, and so does its cell
      have htable : alloc.table[name]? = none := by
        rw [h.table_eq, hknown, if_neg hmem]
        rfl
      have hnew : (seen ++ [name]).eraseDups = seen.eraseDups ++ [name] := by
        rw [eraseDups_concat, if_neg hmem]
      have hidx : (seen ++ [name]).eraseDups.idxOf name = seen.eraseDups.length := by
        rw [hnew, List.idxOf_append_of_notMem (by rwa [List.mem_eraseDups])]
        simp
      simp only [Allocation.resolve, htable, hidx, Option.getD_none]
      refine ⟨⟨?_, fun other => ?_⟩, h.next_eq⟩
      · rw [hnew, List.length_append, h.next_eq]
        rfl
      · -- the table has changed for this symbol alone
        rw [SymbolTable.getElem?_insert]
        by_cases hother : name = other
        · subst hother
          rw [if_pos rfl, hknown, if_pos (by simp), hidx, h.next_eq]
          rfl
        · rw [if_neg hother, h.table_eq]
          have hiff : other ∈ seen ++ [name] ↔ other ∈ seen := by
            simp [Ne.symm hother]
          by_cases hseen : other ∈ seen
          · rw [if_pos hseen, if_pos (hiff.2 hseen), idxOf_eraseDups_append hseen]
          · rw [if_neg hseen, if_neg fun h => hseen (hiff.1 h)]

/-- The second pass emits the words of the instructions, each symbol standing for its address. -/
theorem emitWords_eq {alloc : Allocation} {known : String → Option Nat} {seen : List String}
    (h : alloc.Tracks known seen) (done : Array Int) (code : List Statement)
    {address : String → Nat}
    (haddress : ∀ name ∈ symbols code, address name =
      (known name).getD (MemoryMap.variableBase +
        (seen ++ (symbols code).filter
          (known · |>.isNone)).eraseDups.idxOf name)) :
    (emitWords alloc done code).toList =
      done.toList ++ code.filterMap (Statement.word? address) := by
  induction code generalizing alloc seen done with
  | nil => simp [emitWords]
  | cons x code ih =>
    cases x with
    | label name => exact ih h done haddress
    | compute k =>
      rw [emitWords, ih h _ haddress, Array.toList_push, List.append_assoc]
      rfl
    | address x =>
      cases x with
      | literal n =>
        rw [emitWords, ih h _ haddress, Array.toList_push, List.append_assoc]
        rfl
      | symbol name =>
        obtain ⟨seen', hseen', htracks, hresolve⟩ := h.resolve name
        -- the symbols to come are numbered from those seen up to here
        have hsplit : seen ++ (name :: symbols code).filter
            (known · |>.isNone) =
              seen' ++ (symbols code).filter (known · |>.isNone) := by
          rw [hseen', List.append_assoc, ← List.filter_append, List.singleton_append]
        rw [symbols_symbol, hsplit] at haddress
        -- the symbol keeps its number while others are added
        have hname : address name = (alloc.resolve name).1 := by
          rw [haddress name List.mem_cons_self, hresolve]
          cases hknown : known name with
          | some a => rfl
          | none =>
            have hmem : name ∈ seen' := by
              rw [hseen']
              simp [hknown]
            rw [idxOf_eraseDups_append hmem]
        rw [emitWords, ih htracks _ fun other hother =>
          haddress other (List.mem_cons_of_mem _ hother), Array.toList_push, List.append_assoc,
          ← hname]
        rfl

/-- The words of a program that is assembled are those of its instructions, each symbol standing
for its address.  Its labels are different from each other and from the predefined symbols. -/
theorem assembleStatements_eq_ok {code : List Statement} {words : Array Int}
    (h : assembleStatements code = .ok words) :
    words.toList = code.filterMap (Statement.word? (symbolAddress code)) ∧
      (labels code).Nodup ∧ ∀ name ∈ labels code, MemoryMap.predefined? name = none := by
  unfold assembleStatements at h
  cases hbind : bindLabels 0 SymbolTable.initial code with
  | error error =>
    rw [hbind] at h
    cases h
  | ok table =>
    rw [hbind] at h
    injection h with h
    obtain ⟨hnodup, hnew, htable⟩ := bindLabels_eq_ok hbind
    simp only [SymbolTable.getElem?_initial] at hnew htable
    have htracks : (Allocation.mk table MemoryMap.variableBase).Tracks (knownAddress? code) [] :=
      ⟨rfl, fun name => by rw [htable, if_neg List.not_mem_nil, Option.or_none]; rfl⟩
    refine ⟨?_, hnodup, hnew⟩
    rw [← h, emitWords_eq htracks #[] code fun name _ => rfl]
    rfl

/-- A program is assembled if its labels are different from each other and from the predefined
symbols. -/
theorem exists_assembleStatements {code : List Statement} (hnodup : (labels code).Nodup)
    (hnew : ∀ name ∈ labels code, MemoryMap.predefined? name = none) :
    ∃ words, assembleStatements code = .ok words := by
  simp only [← SymbolTable.getElem?_initial] at hnew
  obtain ⟨table, htable⟩ := exists_bindLabels hnodup hnew
  exact ⟨_, by rw [assembleStatements, htable]; rfl⟩

/-- A program that is assembled is read first. -/
theorem exists_program_of_assemble {lines : List String} {words : Array Int}
    (h : assemble lines = .ok words) :
    ∃ program, readStatements lines = .ok program ∧ assembleStatements program = .ok words := by
  unfold assemble at h
  cases hread : readStatements lines with
  | error error =>
    rw [hread] at h
    cases h
  | ok program =>
    rw [hread] at h
    exact ⟨program, rfl, h⟩

end HackToolchain.Asm
