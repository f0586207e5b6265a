import HackToolchain.Asm.Reading
import HackToolchain.Proofs.Text.Numeral
import HackToolchain.Proofs.Text.Token
import Mathlib.Data.List.Forall2

/-!
# Reading printed statements

What the text of a statement is read as, when it stands on a line of its own.

* `Statement.read_compute`, `Statement.read_literal`: a computation is read as itself, and so is a
  number that fits an instruction;
* `Statement.read_text`: so is every statement whose symbols hold no comment and no blank at the
  end, if it is read at all, except that a symbol of digits is read as a literal (`Address.reread`);
* `readStatements_map_text`: a program is read as itself if each of its statements is;
* `readStatements_ne_duplicateLabel`: reading finds fault with single lines alone.
-/

namespace HackToolchain.Asm

open Text

/-! ### Results -/

theorem Except.map_eq_ok {ε α β : Type} {f : α → β} {x : Except ε α} {b : β}
    (h : x.map f = .ok b) : ∃ a, x = .ok a ∧ f a = b := by
  cases x with
  | error error => cases h
  | ok a =>
    injection h with h
    exact ⟨a, rfl, h⟩

/-- A list is read element by element. -/
theorem mapM_eq_ok_iff {ε α β : Type} {f : α → Except ε β} {xs : List α} {ys : List β} :
    xs.mapM f = .ok ys ↔ List.Forall₂ (fun x y => f x = .ok y) xs ys := by
  induction xs generalizing ys with
  | nil =>
    rw [List.forall₂_nil_left_iff, List.mapM_nil]
    exact ⟨fun h => by injection h with h; exact h.symm, fun h => by rw [h]; rfl⟩
  | cons x xs ih =>
    rw [List.mapM_cons, List.forall₂_cons_left_iff]
    constructor
    · intro h
      cases hx : f x with
      | error error =>
        rw [hx] at h
        cases h
      | ok y =>
        rw [hx] at h
        cases hxs : xs.mapM f with
        | error error =>
          rw [hxs] at h
          cases h
        | ok ys =>
          rw [hxs] at h
          injection h with h
          exact ⟨y, ys, rfl, ih.1 hxs, h.symm⟩
    · rintro ⟨y, ys, hx, hxs, rfl⟩
      rw [hx, ih.2 hxs]
      rfl

theorem exists_of_mem_mapM {ε α β : Type} {f : α → Except ε β} {xs : List α} {ys : List β}
    (h : xs.mapM f = .ok ys) {y : β} (hy : y ∈ ys) : ∃ x ∈ xs, f x = .ok y := by
  have hall := mapM_eq_ok_iff.1 h
  clear h
  induction hall with
  | nil => cases hy
  | cons hx _ ih =>
    rcases List.mem_cons.1 hy with rfl | hy
    · exact ⟨_, List.mem_cons_self, hx⟩
    · obtain ⟨x, hmem, hread⟩ := ih hy
      exact ⟨x, List.mem_cons_of_mem _ hmem, hread⟩

/-! ### Fields of a computation -/

/-- A character that may stand in a field of a computation without being taken for the end of it,
or for the start of another kind of line. -/
def isFieldChar (c : Char) : Bool :=
  !isBlank c && c != '=' && c != ';' && c != '/' && c != '@' && c != '('

theorem isFieldChar_comp (comp : Comp) : ∀ c ∈ comp.text.toList, isFieldChar c = true := by
  have h : ∀ comp ∈ Comp.all, comp.text.toList.all isFieldChar = true := by decide
  exact List.all_eq_true.1 (h comp comp.mem_all)

theorem isFieldChar_jump (jump : Jump) : ∀ c ∈ jump.text.toList, isFieldChar c = true := by
  have h : jump.text.toList.all isFieldChar = true := by cases jump <;> decide
  exact List.all_eq_true.1 h

theorem isFieldChar_dest (dest : Dest) : ∀ c ∈ dest.text.toList, isFieldChar c = true := by
  intro c hc
  rw [Dest.text, String.toList_ofList, List.mem_map] at hc
  obtain ⟨r, -, rfl⟩ := hc
  cases r <;> decide

theorem Dest.ofText?_text (dest : Dest) : Dest.ofText? dest.text = some dest := by
  obtain ⟨rs, hrs⟩ := dest
  have h : (rs.map Register.letter).mapM Register.ofLetter? = some rs := by
    clear hrs
    induction rs with
    | nil => rfl
    | cons r rs ih =>
      rw [List.map_cons, List.mapM_cons, Register.ofLetter?_letter, ih]
      rfl
  simp only [Dest.ofText?, Dest.text, String.toList_ofList, h, Option.bind_eq_bind,
    Option.bind_some, hrs, dite_true]

theorem comp_text_ne_nil (comp : Comp) : comp.text.toList ≠ [] := by
  have h : ∀ comp ∈ Comp.all, comp.text.toList ≠ [] := by decide
  exact h comp comp.mem_all

/-! ### Computations -/

/-- The destination in the text of a computation, with its equals sign. -/
def destPart (dest : List Char) : List Char :=
  if dest = [] then [] else dest ++ ['=']

/-- The jump in the text of a computation, with its semicolon. -/
def jumpPart (jump : List Char) : List Char :=
  if jump = [] then [] else ';' :: jump

theorem Compute.toList_text (k : Compute) :
    k.text.toList =
      destPart k.dest.text.toList ++ (k.comp.text.toList ++ jumpPart k.jump.text.toList) := by
  have hempty (t : String) : t.isEmpty = true ↔ t.toList = [] := by
    rw [String.isEmpty_iff, String.toList_eq_nil_iff]
  simp only [Compute.text, hempty, destPart, jumpPart]
  split <;> split <;> simp [String.toList_append]

theorem mem_destPart {cs : List Char} {c : Char} (h : c ∈ destPart cs) : c ∈ cs ∨ c = '=' := by
  unfold destPart at h
  split at h
  · cases h
  · rwa [List.mem_append, List.mem_singleton] at h

theorem mem_jumpPart {cs : List Char} {c : Char} (h : c ∈ jumpPart cs) : c = ';' ∨ c ∈ cs := by
  unfold jumpPart at h
  split at h
  · cases h
  · rwa [List.mem_cons] at h

theorem Compute.mem_text {k : Compute} {c : Char} (h : c ∈ k.text.toList) :
    isFieldChar c = true ∨ c = '=' ∨ c = ';' := by
  rw [Compute.toList_text, List.mem_append, List.mem_append] at h
  rcases h with h | h | h
  · rcases mem_destPart h with h | h
    · exact .inl (isFieldChar_dest k.dest c h)
    · exact .inr (.inl h)
  · exact .inl (isFieldChar_comp k.comp c h)
  · rcases mem_jumpPart h with h | h
    · exact .inr (.inr h)
    · exact .inl (isFieldChar_jump k.jump c h)

theorem not_mem_of_isFieldChar {cs : List Char} {mark : Char}
    (h : ∀ c ∈ cs, isFieldChar c = true) (hmark : isFieldChar mark = false) : mark ∉ cs := by
  intro hmem
  rw [h mark hmem] at hmark
  contradiction

theorem splitParts_append {dest comp jump : List Char} (hdest : '=' ∉ dest)
    (hcomp : '=' ∉ comp) (hjump : '=' ∉ jump) (hcomp' : ';' ∉ comp) :
    splitParts (destPart dest ++ (comp ++ jumpPart jump)) = (dest, comp, jump) := by
  -- the jump is split off last
  have hrest : (if (comp ++ jumpPart jump).contains ';' then
        (dest, before ';' (comp ++ jumpPart jump), after ';' (comp ++ jumpPart jump))
      else (dest, comp ++ jumpPart jump, [])) = (dest, comp, jump) := by
    by_cases hnil : jump = []
    · rw [jumpPart, if_pos hnil, List.append_nil, hnil, if_neg (by simpa using hcomp')]
    · rw [jumpPart, if_neg hnil, if_pos (by simp), before_append hcomp', after_append hcomp']
  by_cases hnil : dest = []
  · have hequals : '=' ∉ comp ++ jumpPart jump := by
      intro hmem
      rcases List.mem_append.1 hmem with hmem | hmem
      · exact hcomp hmem
      · rcases mem_jumpPart hmem with heq | hmem
        · exact absurd heq (by decide)
        · exact hjump hmem
    rw [destPart, if_pos hnil, List.nil_append, splitParts, if_neg (by simpa using hequals)]
    rw [hnil] at hrest ⊢
    exact hrest
  · rw [destPart, if_neg hnil, List.append_assoc, List.singleton_append, splitParts,
      if_pos (by simp), before_append hdest, after_append hdest]
    exact hrest

theorem splitParts_text (k : Compute) :
    splitParts k.text.toList = (k.dest.text.toList, k.comp.text.toList, k.jump.text.toList) := by
  rw [Compute.toList_text]
  exact splitParts_append (not_mem_of_isFieldChar (isFieldChar_dest k.dest) rfl)
    (not_mem_of_isFieldChar (isFieldChar_comp k.comp) rfl)
    (not_mem_of_isFieldChar (isFieldChar_jump k.jump) rfl)
    (not_mem_of_isFieldChar (isFieldChar_comp k.comp) rfl)

/-- A computation is read as itself. -/
theorem Compute.read_text (number : Nat) (k : Compute) :
    Compute.read number k.text.toList = .ok k := by
  have hspace : k.text.toList.filter (· != ' ') = k.text.toList := by
    rw [List.filter_eq_self]
    intro c hc
    rw [bne_iff_ne]
    rintro rfl
    exact absurd (Compute.mem_text hc) (by decide)
  rw [Compute.read, hspace, splitParts_text]
  simp only [String.ofList_toList, Comp.ofText?_text, Jump.ofText?_text, Dest.ofText?_text]

theorem isBlank_of_isFieldChar {c : Char} (h : isFieldChar c = true ∨ c = '=' ∨ c = ';') :
    isBlank c = false := by
  rcases h with h | rfl | rfl
  · simp only [isFieldChar, Bool.and_eq_true, Bool.not_eq_true'] at h
    exact h.1.1.1.1.1
  · decide
  · decide

theorem Compute.strip_text (k : Compute) : strip (beforeSlashes k.text.toList) = k.text.toList := by
  have hblank (c : Char) (hc : c ∈ k.text.toList) := isBlank_of_isFieldChar (Compute.mem_text hc)
  rw [beforeSlashes_eq_self, strip_eq_self]
  · exact fun c hc => hblank c (List.mem_of_mem_head? hc)
  · exact fun c hc => hblank c (List.mem_of_mem_getLast? hc)
  · apply isPlain_of_not_mem
    intro hslash
    exact absurd (Compute.mem_text hslash) (by decide)

/-- The text of a computation does not start like an address or a label. -/
theorem Compute.exists_text_eq_cons (k : Compute) :
    ∃ c cs, k.text.toList = c :: cs ∧ c ≠ '@' ∧ c ≠ '(' := by
  have hne : k.text.toList ≠ [] := by
    rw [Compute.toList_text]
    exact List.append_ne_nil_of_right_ne_nil _
      (List.append_ne_nil_of_left_ne_nil (comp_text_ne_nil k.comp) _)
  obtain ⟨c, cs, htext⟩ := List.exists_cons_of_ne_nil hne
  have hc := Compute.mem_text (htext ▸ List.mem_cons_self)
  refine ⟨c, cs, htext, ?_, ?_⟩
  · rintro rfl
    exact absurd hc (by decide)
  · rintro rfl
    exact absurd hc (by decide)

/-! ### Symbols -/

/-- A letter or mark that may start a symbol is no digit. -/
theorem isDigit_of_isSymbolStart {c : Char} (h : isSymbolStart c = true) : isDigit c = false := by
  have hlower (d : Char) : d.val ≤ c.val ↔ d.toNat ≤ c.toNat := UInt32.le_iff_toNat_le
  have hupper (d : Char) : c.val ≤ d.val ↔ c.toNat ≤ d.toNat := UInt32.le_iff_toNat_le
  have halpha : c.isAlpha = (decide (c.val ≥ 'A'.val ∧ c.val ≤ 'Z'.val) ||
      decide (c.val ≥ 'a'.val) && decide (c.val ≤ 'z'.val)) := rfl
  simp only [isSymbolStart, isSymbolMark, halpha, Bool.or_eq_true, beq_iff_eq, Bool.and_eq_true,
    decide_eq_true_eq, ge_iff_le, hlower, hupper] at h
  rcases h with ((⟨hlo, hhi⟩ | ⟨hlo, hhi⟩) | rfl) | (rfl | rfl) | rfl
  · have hA : 'A'.toNat = 65 := rfl
    have hZ : 'Z'.toNat = 90 := rfl
    exact isDigit_of_not_asciiDigit (by omega) (by omega)
  · have ha : 'a'.toNat = 97 := rfl
    have hz : 'z'.toNat = 122 := rfl
    exact isDigit_of_not_asciiDigit (by omega) (by omega)
  all_goals exact isDigit_of_not_asciiDigit (by decide) (by decide)

/-- The text consists of digits, and so is no symbol but a literal. -/
def isDigits (cs : List Char) : Bool :=
  !cs.isEmpty && cs.all isDigit

theorem isDigits_of_isSymbol {cs : List Char} (h : isSymbol cs = true) : isDigits cs = false := by
  cases cs with
  | nil => rfl
  | cons c cs =>
    rw [isSymbol, Bool.and_eq_true] at h
    simp [isDigits, isDigit_of_isSymbolStart h.1]

theorem isDigits_eq_false {cs : List Char} {mark : Char} (hmark : isDigit mark = false)
    (hmem : mark ∈ cs) : isDigits cs = false := by
  rw [isDigits, Bool.and_eq_false_iff, List.all_eq_false]
  refine .inr ⟨mark, hmem, ?_⟩
  rw [hmark]
  exact Bool.false_ne_true

/-! ### Statements -/

/-- The number that a symbol of digits is read as. -/
def digitsNumber? (name : String) : Option Int :=
  if isDigits name.toList then (readDecimal name).toOption else none

/-- The address that the text of an address is read as. -/
def Address.reread : Address → Address
  | .literal n => .literal n
  | .symbol name =>
    match digitsNumber? name with
    | some n => .literal n
    | none => .symbol name

/-- The statement that the text of a statement is read as. -/
def Statement.reread : Statement → Statement
  | .address x => .address x.reread
  | x => x

/-- The symbol in a statement, if there is one, holds no comment and ends with no blank. -/
def Statement.IsClean : Statement → Prop
  | .address (.symbol name) =>
    IsPlain name.toList ∧ ∀ c ∈ name.toList.getLast?, isBlank c = false
  | .label name => IsPlain name.toList
  | _ => True

/-- What must hold of a statement that has been read: literals fit an instruction, and labels are
symbols. -/
def Statement.IsReadable : Statement → Prop
  | .address (.literal n) => 0 ≤ n ∧ n ≤ MemoryMap.maxAddress
  | .label name => isSymbol name.toList = true
  | _ => True

theorem strip_beforeSlashes_eq_self {cs : List Char} (hplain : IsPlain cs)
    (hhead : ∀ c ∈ cs.head?, isBlank c = false) (hlast : ∀ c ∈ cs.getLast?, isBlank c = false) :
    strip (beforeSlashes cs) = cs := by
  rw [beforeSlashes_eq_self hplain, strip_eq_self hhead hlast]

/-- The text of an address holds no comment and ends with no blank, if its symbol is such. -/
theorem Address.isPlain_text {a : Address} (ha : (Statement.address a).IsClean) :
    IsPlain a.text.toList ∧ ∀ c ∈ a.text.toList.getLast?, isBlank c = false := by
  cases a with
  | literal n =>
    refine ⟨isPlain_of_not_mem fun hslash => absurd (mem_toString_int hslash) (by decide),
      fun c hc => ?_⟩
    rcases mem_toString_int (List.mem_of_mem_getLast? hc) with hdigit | rfl
    · exact isBlank_of_asciiDigit hdigit
    · decide
  | symbol name => exact ha

theorem not_isSymbol_sign (cs : List Char) : isSymbol ('-' :: cs) = false := rfl

/-- The text of a natural number consists of digits. -/
theorem isDigits_toString_natCast (n : Nat) : isDigits (toString (n : Int)).toList = true := by
  have hall : ∀ c ∈ (toString (n : Int)).toList, isDigit c = true := by
    intro c hc
    rw [toList_toString_natCast] at hc
    exact isDigit_of_asciiDigit (asciiDigit_of_mem hc)
  rw [isDigits, Bool.and_eq_true, Bool.not_eq_true', List.isEmpty_eq_false_iff, List.all_eq_true]
  exact ⟨toList_toString_int_ne_nil n, hall⟩

/-- Digits are read as a number, which must fit an instruction. -/
theorem Address.read_of_isDigits {number : Nat} {text : String}
    (h : isDigits text.toList = true) :
    Address.read number text.toList =
      match readDecimal text with
      | .error error => .error (.numeral error)
      | .ok value =>
        if (MemoryMap.maxAddress : Int) < value then .error (.line (.literal text) number)
        else .ok (.literal value) := by
  rw [Address.read, String.ofList_toList]
  exact if_pos h

/-- A literal is read as its number, and fits an instruction, if it is read at all. -/
theorem Address.read_literal {number : Nat} {n : Int} {y : Address}
    (h : Address.read number (toString n).toList = .ok y) :
    y = .literal n ∧ 0 ≤ n ∧ n ≤ MemoryMap.maxAddress := by
  cases n with
  | ofNat n =>
    rw [Int.ofNat_eq_natCast, Address.read_of_isDigits (isDigits_toString_natCast n)] at h
    cases hread : readDecimal (toString (n : Int)) with
    | error error =>
      rw [hread] at h
      cases h
    | ok value =>
      have hvalue := readDecimal_toString hread
      simp only [hread] at h
      split at h
      · cases h
      · injection h with h
        rw [← h, hvalue]
        rename_i hle
        rw [hvalue, Int.not_lt] at hle
        exact ⟨rfl, Int.natCast_nonneg n, hle⟩
  | negSucc n =>
    -- a sign begins neither a numeral nor a symbol
    rw [toList_toString_negSucc, Address.read,
      if_neg (by simp [show isDigit '-' = false by decide]),
      not_isSymbol_sign] at h
    cases h

/-- A symbol is read as itself or as the number that it is the numeral of, if it is read at all. -/
theorem Address.read_symbol {number : Nat} {name : String} {y : Address}
    (h : Address.read number name.toList = .ok y) : y = (Address.symbol name).reread := by
  rw [Address.read, String.ofList_toList] at h
  change (if isDigits name.toList = true then _ else _) = _ at h
  split at h
  · -- a name of digits alone is read as a number
    rename_i hdigits
    rw [Address.reread, digitsNumber?, if_pos hdigits]
    cases hread : readDecimal name with
    | error error =>
      rw [hread] at h
      cases h
    | ok value =>
      simp only [hread] at h
      split at h
      · cases h
      · injection h with h
        exact h.symm
  · rename_i hdigits
    rw [Address.reread, digitsNumber?, if_neg hdigits]
    split at h
    · injection h with h
      exact h.symm
    · cases h

theorem getLast?_cons_append_singleton {α : Type} (x : α) (xs : List α) (y : α) :
    (x :: (xs ++ [y])).getLast? = some y := by
  rw [← List.cons_append, List.getLast?_concat]

/-- A label is read as itself, and is a symbol, if it is read at all. -/
theorem readLabel_append {number : Nat} {cs : List Char} {name : String}
    (h : readLabel number ('(' :: (cs ++ [')'])) = .ok name) :
    name = String.ofList cs ∧ isSymbol cs = true := by
  simp only [readLabel, List.drop_one, List.tail_cons, List.dropLast_concat,
    getLast?_cons_append_singleton] at h
  split at h
  · rename_i hsymbol
    injection h with h
    rw [Bool.and_eq_true] at hsymbol
    exact ⟨h.symm, hsymbol.2⟩
  · cases h

theorem Statement.toList_text_address (a : Address) :
    (Statement.address a).text.toList = '@' :: a.text.toList := by
  rw [Statement.text, String.toList_append]
  rfl

theorem Statement.toList_text_label (name : String) :
    (Statement.label name).text.toList = '(' :: (name.toList ++ [')']) := by
  simp only [Statement.text, String.toList_append]
  rfl

/-- Of the text of an address, what follows the at sign is read. -/
theorem Statement.read_address {number : Nat} {a : Address} (ha : (Statement.address a).IsClean) :
    Statement.read number (Statement.address a).text =
      (Address.read number a.text.toList).map fun value => some (.address value) := by
  have hstrip : strip (beforeSlashes ('@' :: a.text.toList)) = '@' :: a.text.toList := by
    obtain ⟨hplain, hlast⟩ := a.isPlain_text ha
    refine strip_beforeSlashes_eq_self (hplain.cons (by decide)) ?_ ?_
    · rintro c ⟨⟩
      decide
    · intro c hc
      cases htext : a.text.toList with
      | nil =>
        rw [htext] at hc
        cases hc
        decide
      | cons b bs =>
        rw [htext] at hc hlast
        exact hlast c hc
  rw [Statement.read, Statement.toList_text_address, hstrip]
  rfl

/-- The whole text of a label is read. -/
theorem Statement.read_label {number : Nat} {name : String} (hname : IsPlain name.toList) :
    Statement.read number (Statement.label name).text =
      (readLabel number ('(' :: (name.toList ++ [')']))).map fun name => some (.label name) := by
  have hstrip : strip (beforeSlashes ('(' :: (name.toList ++ [')']))) =
      '(' :: (name.toList ++ [')']) := by
    refine strip_beforeSlashes_eq_self ((IsPlain.concat hname (by decide)).cons (by decide)) ?_ ?_
    · rintro c ⟨⟩
      decide
    · intro c hc
      rw [getLast?_cons_append_singleton] at hc
      cases hc
      decide
  rw [Statement.read, Statement.toList_text_label, hstrip]
  rfl

/-- A computation is read as itself. -/
theorem Statement.read_compute (number : Nat) (k : Compute) :
    Statement.read number (Statement.compute k).text = .ok (some (.compute k)) := by
  rw [Statement.read, Statement.text, k.strip_text]
  have hread := k.read_text number
  obtain ⟨c, cs, htext, hat, hparen⟩ := k.exists_text_eq_cons
  rw [htext] at hread ⊢
  split
  · rename_i heq
    cases heq
  · rename_i heq
    injection heq with heq
    exact absurd heq hat
  · rename_i heq
    injection heq with heq
    exact absurd heq hparen
  · rw [hread]
    rfl

/-- The text of a statement is read as that statement, except that a symbol of digits is read as a
number, if it is read at all. -/
theorem Statement.read_text {number : Nat} {x : Statement} {y : Option Statement} (hx : x.IsClean)
    (h : Statement.read number x.text = .ok y) : y = some x.reread ∧ x.IsReadable := by
  cases x with
  | address a =>
    rw [Statement.read_address hx] at h
    cases hread : Address.read number a.text.toList with
    | error error =>
      rw [hread] at h
      cases h
    | ok b =>
      rw [hread] at h
      injection h with h
      subst h
      cases a with
      | literal n =>
        obtain ⟨rfl, hn⟩ := Address.read_literal hread
        exact ⟨rfl, hn⟩
      | symbol name =>
        rw [Address.read_symbol hread]
        exact ⟨rfl, trivial⟩
  | label name =>
    rw [Statement.read_label hx] at h
    cases hread : readLabel number ('(' :: (name.toList ++ [')'])) with
    | error error =>
      rw [hread] at h
      cases h
    | ok read =>
      rw [hread] at h
      injection h with h
      obtain ⟨rfl, hsymbol⟩ := readLabel_append hread
      rw [← h, String.ofList_toList]
      exact ⟨rfl, hsymbol⟩
  | compute k =>
    rw [Statement.read_compute] at h
    injection h with h
    exact ⟨h.symm, trivial⟩

/-- A number that fits an instruction is read as itself. -/
theorem Statement.read_literal (number : Nat) {n : Nat} (h : n ≤ MemoryMap.maxAddress) :
    Statement.read number (Statement.address (.literal n)).text =
      .ok (some (.address (.literal n))) := by
  have hlength : (Nat.toDigits 10 n).length ≤ 5 := by
    have : n < 10 ^ 5 := Nat.lt_of_le_of_lt h (by decide)
    exact (Nat.length_toDigits_le_iff (by decide) (by decide)).2 this
  obtain ⟨value, hvalue⟩ :=
    exists_readDecimal_toString (Nat.le_trans hlength (by decide : 5 ≤ maxDigits))
  obtain rfl : value = n := readDecimal_toString hvalue
  rw [Statement.read_address (a := .literal n) trivial, Address.text,
    Address.read_of_isDigits (isDigits_toString_natCast n), hvalue]
  dsimp only
  rw [if_neg (Int.not_lt.2 (Int.ofNat_le.2 h))]
  rfl

/-- Lines that are read as themselves make up a program that is. -/
theorem readStatements_map_text {program : List Statement}
    (h : ∀ x ∈ program, ∀ number, Statement.read number x.text = .ok (some x)) :
    readStatements (program.map Statement.text) = .ok program := by
  have hgo (number : Nat) (done : Array Statement) :
      (readStatements.go number done (program.map Statement.text)).map Array.toList =
        .ok (done.toList ++ program) := by
    induction program generalizing number done with
    | nil => exact congrArg Except.ok (List.append_nil _).symm
    | cons x program ih =>
      obtain ⟨hx, hprogram⟩ := List.forall_mem_cons.1 h
      rw [List.map_cons, readStatements.go, hx number]
      dsimp only
      rw [ih hprogram, Array.toList_push, List.append_assoc]
      rfl
  exact hgo 1 #[]

/-! ### Errors -/

/-- What is wrong with a line does not depend on other lines. -/
theorem Statement.read_ne_duplicateLabel {number : Nat} {line : String} (name : String) :
    Statement.read number line ≠ .error (.duplicateLabel name) := by
  have haddress (cs : List Char) : Address.read number cs ≠ .error (.duplicateLabel name) := by
    unfold Address.read
    grind
  have hlabel (cs : List Char) : readLabel number cs ≠ .error (.duplicateLabel name) := by
    unfold readLabel
    grind
  have hcompute (cs : List Char) : Compute.read number cs ≠ .error (.duplicateLabel name) := by
    unfold Compute.read
    grind
  have hmap {α β : Type} {f : α → β} {x : Except Error α} (hx : x ≠ .error (.duplicateLabel name)) :
      x.map f ≠ .error (.duplicateLabel name) := by
    cases x with
    | error error => exact fun h => hx (by injection h with h; rw [h])
    | ok a => exact nofun
  unfold Statement.read
  split
  · exact nofun
  · exact hmap (haddress _)
  · exact hmap (hlabel _)
  · exact hmap (hcompute _)

theorem readStatements_ne_duplicateLabel {lines : List String} (name : String) :
    readStatements lines ≠ .error (.duplicateLabel name) := by
  have hgo (number : Nat) (done : Array Statement) :
      readStatements.go number done lines ≠ .error (.duplicateLabel name) := by
    induction lines generalizing number done with
    | nil => exact nofun
    | cons line lines ih =>
      unfold readStatements.go
      split
      · rename_i error hread
        intro h
        injection h with h
        exact Statement.read_ne_duplicateLabel name (h ▸ hread)
      · exact ih _ _
      · exact ih _ _
  unfold readStatements
  cases h : readStatements.go 1 #[] lines with
  | error error => exact fun heq => hgo 1 #[] (by injection heq with heq; rw [h, heq])
  | ok result => exact nofun

end HackToolchain.Asm
