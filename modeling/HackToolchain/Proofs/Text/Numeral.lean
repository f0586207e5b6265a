import HackToolchain.Text.Numeral
import HackToolchain.Text.Radix
import Mathlib.Data.List.Induction
import Mathlib.Data.List.TakeWhile

/-!
# Numerals read back

The text of a natural number consists of ASCII digits, and reading it gives the number.

* `readDecimal_toString`: a numeral that can be read at all is read as the number written;
* `toString_natCast_injective`: different numbers have different texts;
* `readDecimal_natAbs_lt`: a numeral has no more digits than characters, and never too many;
* `readNumeral_nonneg`, `readDecimal_nonneg`: a text without a minus sign, such as digits of
  whatever script, is read as a number that is not negative;
* `writeNumeral_eq_ok`, `writeNumeral_of_lt`: a numeral that can be written at all is the text of
  the number, and the numerals of the numbers below a bound can;
* `exists_readDecimal_iff`: digits are read if each of them has a value and there are not too many;
* `isHexadecimal_upperHex`: the hexadecimal digits of a number have its value.
-/

namespace HackToolchain.Text

/-! ### ASCII digits -/

section AsciiDigit

variable {c : Char}

theorem toNat_of_asciiDigit (h : c.isDigit = true) : 48 ≤ c.toNat ∧ c.toNat ≤ 57 :=
  Char.isDigit_iff_toNat.1 h

theorem isDecimal_of_asciiDigit (h : c.isDigit = true) : isDecimal c = true := by
  obtain ⟨hlo, hhi⟩ := toNat_of_asciiDigit h
  have hfind : decimalZeros.find? (fun z => z ≤ c.toNat && c.toNat < z + 10) = some 48 := by
    rw [decimalZeros, List.find?_cons_of_pos]
    simp only [Bool.and_eq_true, decide_eq_true_eq]
    omega
  rw [isDecimal, decimalValue?, hfind]
  rfl

theorem isDigit_of_asciiDigit (h : c.isDigit = true) : isDigit c = true := by
  rw [isDigit, isDecimal_of_asciiDigit h, Bool.true_or]

theorem isDigit_of_not_asciiDigit (hlt : c.toNat < 128) (h : ¬ (48 ≤ c.toNat ∧ c.toNat ≤ 57)) :
    isDigit c = false := by
  have hzeros : decimalZeros.find? (fun z => z ≤ c.toNat && c.toNat < z + 10) = none := by
    have hall : ∀ z ∈ decimalZeros, z = 48 ∨ 128 ≤ z := by decide
    rw [List.find?_eq_none]
    intro z hz
    have := hall z hz
    simp only [Bool.and_eq_true, decide_eq_true_eq]
    omega
  have hforms : digitForms.contains c = false := by
    have hall : ∀ r ∈ digitForms, 128 ≤ r.1 := by decide
    rw [CharRanges.contains, List.any_eq_false]
    intro r hr
    have := hall r hr
    simp only [Bool.and_eq_true, decide_eq_true_eq]
    omega
  rw [isDigit, isDecimal, decimalValue?, hzeros, hforms]
  rfl

theorem isBlank_of_asciiDigit (h : c.isDigit = true) : isBlank c = false := by
  obtain ⟨hlo, hhi⟩ := toNat_of_asciiDigit h
  rw [← Bool.not_eq_true]
  simp only [isBlank, Bool.or_eq_true, Bool.and_eq_true, decide_eq_true_eq, beq_iff_eq]
  omega

theorem digitValue?_of_asciiDigit (h : c.isDigit = true) :
    digitValue? c = some (c.toNat - '0'.toNat) := by
  obtain ⟨hlo, hhi⟩ := toNat_of_asciiDigit h
  exact if_pos ⟨hlo, hhi⟩

theorem isDigitIn_ten_of_asciiDigit (h : c.isDigit = true) : isDigitIn 10 c = true := by
  have h48 : '0'.toNat = 48 := rfl
  obtain ⟨hlo, hhi⟩ := toNat_of_asciiDigit h
  simp only [isDigitIn, digitValue?_of_asciiDigit h, decide_eq_true_eq]
  omega

theorem ne_of_asciiDigit {d : Char} (h : c.isDigit = true) (hd : d.isDigit = false) : c ≠ d := by
  rintro rfl
  rw [h] at hd
  contradiction

end AsciiDigit

/-! ### The digits of a number -/

theorem toList_toString_natCast (n : Nat) : (toString (n : Int)).toList = Nat.toDigits 10 n :=
  Nat.toList_repr

theorem toList_toString_negSucc (n : Nat) :
    (toString (Int.negSucc n)).toList = '-' :: Nat.toDigits 10 (n + 1) := by
  rw [show toString (Int.negSucc n) = "-" ++ Nat.repr (n + 1) from rfl, String.toList_append,
    Nat.toList_repr]
  rfl

theorem asciiDigit_of_mem {n : Nat} {c : Char} (h : c ∈ Nat.toDigits 10 n) : c.isDigit = true :=
  Nat.isDigit_of_mem_toDigits (by decide) (by decide) h

theorem mem_toString_int {n : Int} {c : Char} (h : c ∈ (toString n).toList) :
    c.isDigit = true ∨ c = '-' := by
  cases n with
  | ofNat n =>
    rw [Int.ofNat_eq_natCast, toList_toString_natCast] at h
    exact .inl (asciiDigit_of_mem h)
  | negSucc n =>
    rw [toList_toString_negSucc, List.mem_cons] at h
    exact h.symm.imp_left asciiDigit_of_mem

theorem toList_toString_int_ne_nil (n : Int) : (toString n).toList ≠ [] := by
  cases n with
  | ofNat n =>
    rw [Int.ofNat_eq_natCast, toList_toString_natCast]
    exact Nat.toDigits_ne_nil
  | negSucc n =>
    rw [toList_toString_negSucc]
    exact List.cons_ne_nil _ _

theorem digitsValue_eq_ofDigitChars (cs : List Char) (h : ∀ c ∈ cs, c.isDigit = true) :
    digitsValue 10 cs = Nat.ofDigitChars 10 cs 0 := by
  rw [digitsValue, Nat.ofDigitChars]
  generalize 0 = value
  induction cs generalizing value with
  | nil => rfl
  | cons c cs ih =>
    rw [List.foldl_cons, List.foldl_cons, digitValue?_of_asciiDigit (h c List.mem_cons_self),
      Nat.mul_comm value]
    exact ih (fun d hd => h d (List.mem_cons_of_mem _ hd)) _

theorem digitsValue_toDigits (n : Nat) : digitsValue 10 (Nat.toDigits 10 n) = n := by
  rw [digitsValue_eq_ofDigitChars _ fun c => asciiDigit_of_mem,
    Nat.ofDigitChars_toDigits (by decide) (by decide)]

theorem toString_natCast_injective {m n : Nat} (h : toString (m : Int) = toString (n : Int)) :
    m = n := by
  rw [← digitsValue_toDigits m, ← toList_toString_natCast, h, toList_toString_natCast,
    digitsValue_toDigits]

theorem toString_int_injective {m n : Int} (hm : 0 ≤ m) (hn : 0 ≤ n) (h : toString m = toString n) :
    m = n := by
  rw [← Int.toNat_of_nonneg hm, ← Int.toNat_of_nonneg hn] at h ⊢
  exact congrArg Nat.cast (toString_natCast_injective h)

theorem digitsValue_concat (base : Nat) (cs : List Char) {c : Char} {d : Nat}
    (hc : digitValue? c = some d) :
    digitsValue base (cs ++ [c]) = digitsValue base cs * base + d := by
  rw [digitsValue, List.foldl_append, List.foldl_cons, List.foldl_nil, hc]
  rfl

/-- Digits, with underscores between them, have a value below the power for their number. -/
theorem digitsValue_lt {base : Nat} {cs : List Char}
    (h : ∀ c ∈ cs, (isDigitIn base c || c == '_') = true) :
    digitsValue base cs < Nat.pow base (cs.countP (· != '_')) := by
  induction cs using List.reverseRecOn with
  | nil => exact Nat.one_pos
  | append_singleton cs c ih =>
    obtain ⟨hcs, hc⟩ := List.forall_mem_append.1 h
    have ih := ih hcs
    -- an underscore counts for nothing in the value
    by_cases hunderscore : c = '_'
    · have hvalue : digitsValue base (cs ++ [c]) = digitsValue base cs := by
        rw [digitsValue, List.foldl_append, hunderscore]
        rfl
      rw [hvalue, List.countP_append, hunderscore]
      exact ih
    · obtain ⟨d, hd, hlt⟩ : ∃ d, digitValue? c = some d ∧ d < base := by
        have hdigit : isDigitIn base c = true := by
          simpa [hunderscore] using hc c (List.mem_singleton_self c)
        unfold isDigitIn at hdigit
        split at hdigit
        · exact ⟨_, by assumption, of_decide_eq_true hdigit⟩
        · cases hdigit
      have hcount : (cs ++ [c]).countP (· != '_') = cs.countP (· != '_') + 1 := by
        rw [List.countP_append, List.countP_singleton, if_pos (bne_iff_ne.2 hunderscore)]
      rw [digitsValue_concat base cs hd, hcount]
      calc digitsValue base cs * base + d
          < (digitsValue base cs + 1) * base := by rw [Nat.add_mul]; omega
        _ ≤ Nat.pow base (cs.countP (· != '_')) * base := Nat.mul_le_mul_right base ih

/-! ### Reading and writing -/

/-- What is read are the digits in front, and of base ten there are not too many of them. -/
theorem readDigits_eq_ok {error : NumeralError} {base : Nat} {onlyZero : Bool} {cs : List Char}
    {value : Nat} (h : readDigits error base onlyZero cs = .ok value) :
    ∃ run, run = cs.takeWhile (fun c => isDigitIn base c || c == '_') ∧
      value = digitsValue base run ∧ (base = 10 → run.countP (· != '_') ≤ maxDigits) := by
  simp only [readDigits] at h
  split at h
  · cases h
  · split at h
    · cases h
    · rename_i hlong
      split at h
      · cases h
      · split at h
        · cases h
        · injection h with h
          exact ⟨_, rfl, h.symm, fun hbase => Nat.not_lt.1 fun hcount => hlong ⟨hbase, hcount⟩⟩

theorem takeWhile_of_asciiDigits {cs : List Char} (hcs : ∀ c ∈ cs, c.isDigit = true) :
    cs.takeWhile (fun c => isDigitIn 10 c || c == '_') = cs := by
  rw [List.takeWhile_eq_self_iff]
  intro c hc
  rw [isDigitIn_ten_of_asciiDigit (hcs c hc), Bool.true_or]

theorem readDigits_of_asciiDigits {error : NumeralError} {cs : List Char} {value : Nat}
    (hcs : ∀ c ∈ cs, c.isDigit = true) (h : readDigits error 10 false cs = .ok value) :
    value = digitsValue 10 cs := by
  obtain ⟨run, rfl, hvalue, -⟩ := readDigits_eq_ok h
  rwa [takeWhile_of_asciiDigits hcs] at hvalue

theorem underscoresSeparate_of_notMem {cs : List Char} (h : '_' ∉ cs) :
    underscoresSeparate cs = true := by
  induction cs with
  | nil => rfl
  | cons c cs ih =>
    obtain ⟨hc, hcs⟩ := not_or.1 (mt List.mem_cons.2 h)
    unfold underscoresSeparate
    split
    · rfl
    · rename_i heq
      injection heq with heq
      exact absurd heq.symm hc
    · rename_i heq
      injection heq with heq
      exact absurd heq.symm hc
    · rename_i heq
      injection heq with _ heq
      rw [← heq]
      exact ih hcs

/-- So many ASCII digits as a numeral may have are read. -/
theorem exists_readDigits_of_asciiDigits (error : NumeralError) {cs : List Char}
    (hcs : ∀ c ∈ cs, c.isDigit = true) (hne : cs ≠ []) (hlength : cs.length ≤ maxDigits) :
    ∃ value, readDigits error 10 false cs = .ok value := by
  have hunderscore : '_' ∉ cs := fun hmem => absurd (hcs _ hmem) (by decide)
  have hhead : (cs.head? == some '_') = false := by
    rw [beq_eq_false_iff_ne]
    exact fun hmem => hunderscore (List.mem_of_mem_head? hmem)
  have hrest : cs.dropWhile (fun c => isDigitIn 10 c || c == '_') = [] := by
    rw [List.dropWhile_eq_nil_iff]
    intro c hc
    rw [isDigitIn_ten_of_asciiDigit (hcs c hc), Bool.true_or]
  have hcount : ¬ maxDigits < cs.countP (· != '_') :=
    Nat.not_lt.2 (Nat.le_trans List.countP_le_length hlength)
  have hempty : cs.isEmpty = false := List.isEmpty_eq_false_iff.2 hne
  refine ⟨digitsValue 10 cs, ?_⟩
  simp only [readDigits, takeWhile_of_asciiDigits hcs, hhead,
    underscoresSeparate_of_notMem hunderscore, hrest, hcount, hempty, and_false, if_false,
    Bool.not_true, Bool.or_false, Bool.false_and, Bool.false_eq_true, List.all_nil]

/-- Reading starts with the digits if neither a blank nor a sign stands in front of them. -/
theorem readNumeral_eq_of_head? {text cs : List Char} (hascii : toAscii text = cs)
    (hhead : ∀ c ∈ cs.head?, isNumeralBlank c = false ∧ c ≠ '+' ∧ c ≠ '-') :
    readNumeral false text =
      (readDigits (.invalid 10 (String.ofList text)) 10 false cs).map
        fun (n : Nat) => (n : Int) := by
  have hdrop : cs.dropWhile isNumeralBlank = cs := by
    cases cs with
    | nil => rfl
    | cons c cs =>
      rw [List.dropWhile_cons_of_neg]
      rw [(hhead c rfl).1]
      exact Bool.false_ne_true
  have hsign : takeSign cs = (false, cs) := by
    unfold takeSign
    split
    · exact absurd rfl (hhead _ rfl).2.1
    · exact absurd rfl (hhead _ rfl).2.2
    · rfl
  simp only [readNumeral, hascii, hdrop, hsign, Bool.false_eq_true, if_false]
  cases readDigits (.invalid 10 (String.ofList text)) 10 false cs <;> rfl

theorem isNumeralBlank_of_asciiDigit {c : Char} (h : c.isDigit = true) :
    isNumeralBlank c = false := by
  obtain ⟨hlo, hhi⟩ := toNat_of_asciiDigit h
  rw [isNumeralBlank, Bool.or_eq_false_iff]
  refine ⟨beq_eq_false_iff_ne.2 (ne_of_asciiDigit h rfl), ?_⟩
  rw [← Bool.not_eq_true, Bool.and_eq_true, decide_eq_true_eq, decide_eq_true_eq]
  omega

/-- ASCII digits are read without regard to signs, blanks and other scripts. -/
theorem readNumeral_eq_of_asciiDigits {cs : List Char} (hcs : ∀ c ∈ cs, c.isDigit = true) :
    readNumeral false cs =
      (readDigits (.invalid 10 (String.ofList cs)) 10 false cs).map fun (n : Nat) => (n : Int) := by
  refine readNumeral_eq_of_head? ?_ fun c hc => ?_
  · rw [toAscii, if_pos]
    rw [List.all_eq_true]
    intro c hc
    have := toNat_of_asciiDigit (hcs c hc)
    rw [decide_eq_true_eq]
    omega
  · have hdigit := hcs c (List.mem_of_mem_head? hc)
    exact ⟨isNumeralBlank_of_asciiDigit hdigit, ne_of_asciiDigit hdigit rfl,
      ne_of_asciiDigit hdigit rfl⟩

/-- ASCII digits are read as their value, if they are read at all. -/
theorem readNumeral_of_asciiDigits {cs : List Char} {value : Int} (hcs : ∀ c ∈ cs, c.isDigit = true)
    (h : readNumeral false cs = .ok value) : value = digitsValue 10 cs := by
  rw [readNumeral_eq_of_asciiDigits hcs] at h
  cases hread : readDigits (.invalid 10 (String.ofList cs)) 10 false cs with
  | error error =>
    rw [hread] at h
    cases h
  | ok n =>
    rw [hread] at h
    cases h
    rw [readDigits_of_asciiDigits hcs hread]

/-- The text of a natural number is read as that number, if it is read at all. -/
theorem readDecimal_toString {n : Nat} {value : Int}
    (h : readDecimal (toString (n : Int)) = .ok value) : value = n := by
  rw [readDecimal, toList_toString_natCast] at h
  rw [readNumeral_of_asciiDigits (fun c => asciiDigit_of_mem) h, digitsValue_toDigits]

/-- The text of a natural number is read, if it is not too long. -/
theorem exists_readDecimal_toString {n : Nat} (h : (Nat.toDigits 10 n).length ≤ maxDigits) :
    ∃ value, readDecimal (toString (n : Int)) = .ok value := by
  have hdigits : ∀ c ∈ Nat.toDigits 10 n, c.isDigit = true := fun c => asciiDigit_of_mem
  obtain ⟨value, hvalue⟩ := exists_readDigits_of_asciiDigits
    (.invalid 10 (String.ofList (Nat.toDigits 10 n))) hdigits Nat.toDigits_ne_nil h
  refine ⟨value, ?_⟩
  rw [readDecimal, toList_toString_natCast, readNumeral_eq_of_asciiDigits hdigits, hvalue]
  rfl

theorem length_toAscii_le (cs : List Char) : (toAscii cs).length ≤ cs.length := by
  have hgo (cs : List Char) : (toAscii.go cs).length ≤ cs.length := by
    induction cs with
    | nil => exact Nat.le_refl _
    | cons c cs ih =>
      unfold toAscii.go
      split
      · exact Nat.succ_le_succ ih
      · split
        · exact Nat.succ_le_succ ih
        · split
          · exact Nat.succ_le_succ ih
          · exact Nat.succ_le_succ (Nat.zero_le _)
  unfold toAscii
  split
  · exact Nat.le_refl _
  · exact hgo cs

theorem length_takeSign_le (cs : List Char) : (takeSign cs).2.length ≤ cs.length := by
  unfold takeSign
  split
  · exact Nat.le_succ _
  · exact Nat.le_succ _
  · exact Nat.le_refl _

theorem readDecimal_eq_ok {text : String} {value : Int} (h : readDecimal text = .ok value) :
    ∃ negative cs n, takeSign ((toAscii text.toList).dropWhile isNumeralBlank) = (negative, cs) ∧
      readDigits (.invalid 10 (String.ofList text.toList)) 10 false cs = .ok n ∧
      value = if negative then -(n : Int) else n := by
  rcases hsign : takeSign ((toAscii text.toList).dropWhile isNumeralBlank) with ⟨negative, cs⟩
  simp only [readDecimal, readNumeral, hsign, Bool.false_eq_true, if_false] at h
  cases hread : readDigits (.invalid 10 (String.ofList text.toList)) 10 false cs with
  | error error =>
    rw [hread] at h
    cases h
  | ok n =>
    rw [hread] at h
    injection h with h
    exact ⟨negative, cs, n, rfl, hread, h.symm⟩

/-- A numeral of base ten is below the power for its digits, of which there are not too many and no
more than characters. -/
theorem readDecimal_natAbs_lt {text : String} {value : Int} (h : readDecimal text = .ok value) :
    ∃ count, count ≤ maxDigits ∧ count ≤ text.toList.length ∧ value.natAbs < Nat.pow 10 count := by
  obtain ⟨negative, cs, n, hsign, hread, rfl⟩ := readDecimal_eq_ok h
  obtain ⟨run, hrun, hn, hcount⟩ := readDigits_eq_ok hread
  refine ⟨run.countP (· != '_'), hcount rfl, ?_, ?_⟩
  · -- no step of reading makes the text longer
    calc run.countP (· != '_')
      _ ≤ run.length := List.countP_le_length
      _ ≤ cs.length := hrun ▸ (List.takeWhile_prefix _).length_le
      _ ≤ ((toAscii text.toList).dropWhile isNumeralBlank).length := by
        have hlength := length_takeSign_le ((toAscii text.toList).dropWhile isNumeralBlank)
        rwa [hsign] at hlength
      _ ≤ (toAscii text.toList).length := (List.dropWhile_suffix _).length_le
      _ ≤ text.toList.length := length_toAscii_le _
  · have habs : (if negative then -(n : Int) else n).natAbs = n := by
      split
      · rw [Int.natAbs_neg, Int.natAbs_natCast]
      · exact Int.natAbs_natCast n
    rw [habs, hn]
    refine digitsValue_lt fun c hc => ?_
    rw [hrun] at hc
    exact List.mem_takeWhile_imp (p := fun c => isDigitIn 10 c || c == '_') hc

theorem minus_notMem_of_all {cs : List Char} (h : cs.all isDigit = true) : '-' ∉ cs := by
  have hminus : isDigit '-' = false := isDigit_of_not_asciiDigit (by decide) (by decide)
  intro hmem
  have hdigit := List.all_eq_true.1 h _ hmem
  rw [hminus] at hdigit
  cases hdigit

theorem minus_notMem_toAscii_go {cs : List Char} (h : '-' ∉ cs) : '-' ∉ toAscii.go cs := by
  induction cs with
  | nil => exact List.not_mem_nil
  | cons c cs ih =>
    obtain ⟨hc, hcs⟩ := not_or.1 (mt List.mem_cons.2 h)
    unfold toAscii.go
    split
    · exact List.not_mem_cons_of_ne_of_not_mem hc (ih hcs)
    · split
      · exact List.not_mem_cons_of_ne_of_not_mem (by decide) (ih hcs)
      · split
        · rename_i n hn
          have hdigit : ∀ n < 10, '-' ≠ Nat.digitChar n := by decide
          exact List.not_mem_cons_of_ne_of_not_mem (hdigit n (decimalValue?_lt hn)) (ih hcs)
        · decide

/-- A numeral without a minus sign is not negative. -/
theorem readNumeral_nonneg {announced : Bool} {text : List Char} {value : Int}
    (hminus : '-' ∉ text) (h : readNumeral announced text = .ok value) : 0 ≤ value := by
  have hascii : '-' ∉ toAscii text := by
    unfold toAscii
    split
    · exact hminus
    · exact minus_notMem_toAscii_go hminus
  -- without a minus sign in the text, none is taken off
  have hsign : (takeSign ((toAscii text).dropWhile isNumeralBlank)).1 = false := by
    have hdrop : '-' ∉ (toAscii text).dropWhile isNumeralBlank :=
      fun hmem => hascii (List.dropWhile_subset _ hmem)
    unfold takeSign
    split
    · rfl
    · rename_i heq
      exact absurd (by rw [heq]; exact List.mem_cons_self) hdrop
    · rfl
  simp only [readNumeral, hsign, Bool.false_eq_true, if_false, bind, Except.bind] at h
  split at h
  · cases h
  · rename_i n _
    injection h with h
    rw [← h]
    exact Int.natCast_nonneg n

/-- Digits are read as a number that is not negative. -/
theorem readDecimal_nonneg {text : String} {value : Int} (hdigits : text.toList.all isDigit = true)
    (h : readDecimal text = .ok value) : 0 ≤ value :=
  readNumeral_nonneg (minus_notMem_of_all hdigits) h

theorem pow_le_numeralBound {count : Nat} (h : count ≤ maxDigits) :
    Nat.pow 10 count ≤ numeralBound := by
  unfold numeralBound
  -- the power itself is not to be computed
  generalize maxDigits = limit at h ⊢
  exact Nat.pow_le_pow_right (by decide) h

/-- What has been read can be written. -/
theorem natAbs_lt_numeralBound_of_readDecimal {text : String} {value : Int}
    (h : readDecimal text = .ok value) : value.natAbs < numeralBound := by
  obtain ⟨count, hcount, -, hlt⟩ := readDecimal_natAbs_lt h
  exact Nat.lt_of_lt_of_le hlt (pow_le_numeralBound hcount)

/-- What has been read from fewer characters than a numeral may have digits can still be written
when a digit is added to it. -/
theorem natAbs_add_lt_numeralBound_of_readDecimal {text : String} {value : Int}
    (h : readDecimal text = .ok value) (hlength : text.toList.length < maxDigits) {digit : Int}
    (hdigit : digit.natAbs < 10) : (digit + value).natAbs < numeralBound := by
  obtain ⟨count, -, hcount, hlt⟩ := readDecimal_natAbs_lt h
  have hbound : Nat.pow 10 (count + 1) ≤ numeralBound := pow_le_numeralBound (by omega)
  have hpower : Nat.pow 10 (count + 1) = Nat.pow 10 count * 10 := rfl
  generalize Nat.pow 10 count = power at *
  omega

theorem writeNumeral_eq_ok {n : Int} {text : String} (h : writeNumeral n = .ok text) :
    text = toString n := by
  unfold writeNumeral at h
  split at h
  · cases h
  · injection h with h
    exact h.symm

theorem writeNumeral_of_lt {n : Int} (h : n.natAbs < numeralBound) :
    writeNumeral n = .ok (toString n) :=
  if_neg (Nat.not_le.2 h)

/-- A number that is not negative and has no more than `maxDigits` digits can be written. -/
theorem writeNumeral_of_length_le {n : Int} (hn : 0 ≤ n)
    (h : (toString n).toList.length ≤ maxDigits) : writeNumeral n = .ok (toString n) := by
  obtain ⟨m, rfl⟩ := Int.eq_ofNat_of_zero_le hn
  rw [toList_toString_natCast, Nat.length_toDigits_le_iff (by decide) (by decide)] at h
  have hbound := pow_le_numeralBound (Nat.le_refl maxDigits)
  -- the power itself is not to be computed
  generalize maxDigits = limit at h hbound
  exact writeNumeral_of_lt (Nat.lt_of_lt_of_le h hbound)

/-! ### Digits of all scripts -/

theorem asciiDigit_digitChar {n : Nat} (h : n < 10) : (Nat.digitChar n).isDigit = true := by
  have hall : ∀ n < 10, (Nat.digitChar n).isDigit = true := by decide
  exact hall n h

/-- A digit that is an ASCII character is an ASCII digit. -/
theorem asciiDigit_of_isDigit {c : Char} (h : isDigit c = true) (hlt : c.toNat < 128) :
    c.isDigit = true := by
  rw [Char.isDigit_iff_toNat]
  by_contra hrange
  rw [isDigit_of_not_asciiDigit hlt hrange] at h
  cases h

/-- The ranges of the blanks. -/
def blankRanges : CharRanges :=
  [(9, 13), (28, 32), (0x85, 0x85), (0xA0, 0xA0), (0x1680, 0x1680), (0x2000, 0x200A),
    (0x2028, 0x2029), (0x202F, 0x202F), (0x205F, 0x205F), (0x3000, 0x3000)]

theorem contains_blankRanges {c : Char} (h : isBlank c = true) : blankRanges.contains c = true := by
  simp only [isBlank, Bool.or_eq_true, Bool.and_eq_true, decide_eq_true_eq, beq_iff_eq] at h
  simp only [blankRanges, CharRanges.contains, List.any_cons, List.any_nil, Bool.or_eq_true,
    Bool.and_eq_true, decide_eq_true_eq]
  omega

/-- A digit is no blank. -/
theorem isBlank_of_isDigit {c : Char} (h : isDigit c = true) : isBlank c = false := by
  rw [← Bool.not_eq_true]
  intro hblank
  obtain ⟨b, hb, hc⟩ := List.any_eq_true.1 (contains_blankRanges hblank)
  rw [Bool.and_eq_true, decide_eq_true_eq, decide_eq_true_eq] at hc
  -- no range of blanks touches one of digits
  rcases Bool.or_eq_true_iff.1 h with hdecimal | hform
  · have hapart : ∀ b ∈ blankRanges, ∀ z ∈ decimalZeros, z + 10 ≤ b.1 ∨ b.2 < z := by
      decide +kernel
    obtain ⟨n, hn⟩ := Option.isSome_iff_exists.1 hdecimal
    obtain ⟨z, hz, -⟩ := Option.map_eq_some_iff.1 hn
    have hrange := List.find?_some hz
    rw [Bool.and_eq_true, decide_eq_true_eq, decide_eq_true_eq] at hrange
    have := hapart b hb z (List.mem_of_find?_eq_some hz)
    omega
  · have hapart : ∀ b ∈ blankRanges, ∀ r ∈ digitForms, r.2 < b.1 ∨ b.2 < r.1 := by decide +kernel
    obtain ⟨r, hr, hrange⟩ := List.any_eq_true.1 hform
    rw [Bool.and_eq_true, decide_eq_true_eq, decide_eq_true_eq] at hrange
    have := hapart b hb r hr
    omega

/-- A decimal digit is written as one of ASCII. -/
theorem toAscii_go_cons_of_decimal {c : Char} (h : isDecimal c = true) :
    ∃ d : Char, d.isDigit = true ∧ ∀ cs, toAscii.go (c :: cs) = d :: toAscii.go cs := by
  have hdigit : isDigit c = true := Bool.or_eq_true_iff.2 (.inl h)
  by_cases hlt : c.toNat < 127
  · refine ⟨c, asciiDigit_of_isDigit hdigit (by omega), fun cs => ?_⟩
    rw [toAscii.go, if_pos hlt]
  · obtain ⟨n, hn⟩ := Option.isSome_iff_exists.1 h
    refine ⟨Nat.digitChar n, asciiDigit_digitChar (decimalValue?_lt hn), fun cs => ?_⟩
    rw [toAscii.go, if_neg hlt, isBlank_of_isDigit hdigit, if_neg Bool.false_ne_true, hn]

/-- A digit without a value ends the text. -/
theorem toAscii_go_cons_of_form {c : Char} (hdigit : isDigit c = true) (h : isDecimal c = false)
    (cs : List Char) : toAscii.go (c :: cs) = ['?'] := by
  have hge : ¬ c.toNat < 127 := fun hlt => by
    obtain ⟨n, hn⟩ := Option.isSome_iff_exists.1 (isDecimal_of_asciiDigit
      (asciiDigit_of_isDigit hdigit (by omega)))
    rw [isDecimal, hn] at h
    cases h
  have hnone : decimalValue? c = none := Option.not_isSome_iff_eq_none.1 (by
    rw [Bool.not_eq_true]
    exact h)
  rw [toAscii.go, if_neg hge, isBlank_of_isDigit hdigit, if_neg Bool.false_ne_true, hnone]

/-- Decimal digits of any script are written as just as many ASCII digits. -/
theorem toAscii_go_of_decimals {cs : List Char} (h : ∀ c ∈ cs, isDecimal c = true) :
    (∀ d ∈ toAscii.go cs, d.isDigit = true) ∧ (toAscii.go cs).length = cs.length := by
  induction cs with
  | nil => exact ⟨fun _ hd => absurd hd List.not_mem_nil, rfl⟩
  | cons c cs ih =>
    obtain ⟨hc, hcs⟩ := List.forall_mem_cons.1 h
    obtain ⟨hdigits, hlength⟩ := ih hcs
    obtain ⟨d, hd, hgo⟩ := toAscii_go_cons_of_decimal hc
    rw [hgo, List.length_cons, List.length_cons, hlength]
    exact ⟨List.forall_mem_cons.2 ⟨hd, hdigits⟩, rfl⟩

/-- Digits of which one has no value are written as ASCII digits and a mark behind them. -/
theorem toAscii_go_of_form {cs : List Char} (hcs : ∀ c ∈ cs, isDigit c = true)
    (h : ∃ c ∈ cs, isDecimal c = false) :
    ∃ ds : List Char, (∀ d ∈ ds, d.isDigit = true) ∧ toAscii.go cs = ds ++ ['?'] := by
  induction cs with
  | nil =>
    obtain ⟨c, hc, -⟩ := h
    exact absurd hc List.not_mem_nil
  | cons c cs ih =>
    obtain ⟨hc, hrest⟩ := List.forall_mem_cons.1 hcs
    cases hdecimal : isDecimal c with
    | false =>
      exact ⟨[], fun _ hd => absurd hd List.not_mem_nil, toAscii_go_cons_of_form hc hdecimal cs⟩
    | true =>
      have htail : ∃ b ∈ cs, isDecimal b = false := by
        obtain ⟨b, hb, hnone⟩ := h
        rcases List.mem_cons.1 hb with rfl | hb
        · rw [hdecimal] at hnone
          cases hnone
        · exact ⟨b, hb, hnone⟩
      obtain ⟨ds, hds, htext⟩ := ih hrest htail
      obtain ⟨d, hd, hgo⟩ := toAscii_go_cons_of_decimal hdecimal
      exact ⟨d :: ds, List.forall_mem_cons.2 ⟨hd, hds⟩, by rw [hgo, htext, List.cons_append]⟩

theorem toAscii_eq_go {cs : List Char} (hcs : ∀ c ∈ cs, isDigit c = true) :
    toAscii cs = toAscii.go cs := by
  unfold toAscii
  split
  · rename_i hascii
    rw [List.all_eq_true] at hascii
    induction cs with
    | nil => rfl
    | cons c cs ih =>
      obtain ⟨hc, hrest⟩ := List.forall_mem_cons.1 hcs
      have hlt := hascii c List.mem_cons_self
      rw [decide_eq_true_eq] at hlt
      have := toNat_of_asciiDigit (asciiDigit_of_isDigit hc hlt)
      rw [toAscii.go, if_pos (by omega),
        ← ih hrest fun d hd => hascii d (List.mem_cons_of_mem c hd)]
  · rfl

theorem readDigits_eq_error_of_mark (error : NumeralError) {ds : List Char}
    (hds : ∀ d ∈ ds, d.isDigit = true) :
    ∃ error', readDigits error 10 false (ds ++ ['?']) = .error error' := by
  have hmark : (isDigitIn 10 '?' || '?' == '_') = false := by decide
  have hpos : ∀ d ∈ ds, (isDigitIn 10 d || d == '_') = true := fun d hd => by
    rw [isDigitIn_ten_of_asciiDigit (hds d hd), Bool.true_or]
  have hrest : (ds ++ ['?']).dropWhile (fun c => isDigitIn 10 c || c == '_') = ['?'] := by
    rw [List.dropWhile_append_of_pos hpos, List.dropWhile_cons_of_neg]
    rw [hmark]
    exact Bool.false_ne_true
  have hblank : isNumeralBlank '?' = false := by decide
  unfold readDigits
  simp only [hrest, List.all_cons, hblank, Bool.false_and, Bool.not_false, Bool.or_true, if_true]
  split
  · exact ⟨_, rfl⟩
  · split
    · exact ⟨_, rfl⟩
    · exact ⟨_, rfl⟩

theorem readDigits_eq_error_of_long (error : NumeralError) {ds : List Char}
    (hds : ∀ d ∈ ds, d.isDigit = true) (hlong : maxDigits < ds.length) :
    ∃ error', readDigits error 10 false ds = .error error' := by
  cases hread : readDigits error 10 false ds with
  | error error' => exact ⟨error', rfl⟩
  | ok value =>
    obtain ⟨run, rfl, -, hcount⟩ := readDigits_eq_ok hread
    have hlength : ds.countP (· != '_') = ds.length :=
      List.countP_eq_length.2 fun d hd => bne_iff_ne.2 (ne_of_asciiDigit (hds d hd) rfl)
    have hle := hcount rfl
    rw [takeWhile_of_asciiDigits hds, hlength] at hle
    omega

/-- Digits are read if and only if each of them has a value and there are not too many. -/
theorem exists_readDecimal_iff {cs : List Char} (hne : cs ≠ []) (hcs : ∀ c ∈ cs, isDigit c = true) :
    (∃ value, readDecimal (String.ofList cs) = .ok value) ↔
      (∀ c ∈ cs, isDecimal c = true) ∧ cs.length ≤ maxDigits := by
  -- digits are neither blanks nor signs, so that nothing is taken off in front
  have hread {ds : List Char} (htext : toAscii.go cs = ds)
      (hhead : ∀ d ∈ ds.head?, d.isDigit = true ∨ d = '?') :
      readDecimal (String.ofList cs) = (readDigits (.invalid 10 (String.ofList cs)) 10 false ds).map
        fun (n : Nat) => (n : Int) := by
    rw [readDecimal, String.toList_ofList]
    refine readNumeral_eq_of_head? ((toAscii_eq_go hcs).trans htext) fun d hd => ?_
    rcases hhead d hd with hdigit | rfl
    · exact ⟨isNumeralBlank_of_asciiDigit hdigit, ne_of_asciiDigit hdigit rfl,
        ne_of_asciiDigit hdigit rfl⟩
    · decide
  by_cases hdecimal : ∀ c ∈ cs, isDecimal c = true
  · obtain ⟨hds, hlength⟩ := toAscii_go_of_decimals hdecimal
    rw [hread rfl fun d hd => .inl (hds d (List.mem_of_mem_head? hd)), ← hlength]
    by_cases hlong : (toAscii.go cs).length ≤ maxDigits
    · have hgo : toAscii.go cs ≠ [] := fun hnil => hne (List.length_eq_zero_iff.1 (by
        rw [← hlength, hnil]; rfl))
      obtain ⟨value, hvalue⟩ := exists_readDigits_of_asciiDigits
        (.invalid 10 (String.ofList cs)) hds hgo hlong
      exact ⟨fun _ => ⟨hdecimal, hlong⟩, fun _ => ⟨value, by rw [hvalue]; rfl⟩⟩
    · -- too many digits
      obtain ⟨error, herror⟩ := readDigits_eq_error_of_long
        (.invalid 10 (String.ofList cs)) hds (Nat.lt_of_not_le hlong)
      rw [herror]
      exact ⟨fun ⟨_, h⟩ => (nomatch h), fun ⟨_, h⟩ => absurd h hlong⟩
  · -- a digit without a value becomes a mark, at which reading stops
    obtain ⟨c, hc, hnone⟩ := not_forall₂.1 hdecimal
    obtain ⟨ds, hds, htext⟩ := toAscii_go_of_form hcs ⟨c, hc, Bool.eq_false_iff.2 hnone⟩
    obtain ⟨error, herror⟩ := readDigits_eq_error_of_mark (.invalid 10 (String.ofList cs)) hds
    rw [hread htext fun d hd => ?_, herror]
    · exact ⟨fun ⟨_, h⟩ => (nomatch h), fun ⟨h, _⟩ => absurd h hdecimal⟩
    · have hmem := List.mem_of_mem_head? hd
      rw [List.mem_append, List.mem_singleton] at hmem
      exact hmem.imp_left (hds d)

/-! ### Hexadecimal numerals -/

/-- The text is the hexadecimal numeral of a number, in capital letters and with the given number of
digits. -/
structure IsHexadecimal (width : Nat) (n : Int) (cs : List Char) : Prop where
  length : cs.length = width
  digits : ∀ c ∈ cs, c ∈ "0123456789ABCDEF".toList
  value : (digitsValue 16 cs : Int) = n

theorem digitsValue_padLeft (base width : Nat) (cs : List Char) :
    digitsValue base (padLeft width cs) = digitsValue base cs := by
  unfold padLeft
  induction width - cs.length with
  | zero => rfl
  | succ k ih =>
    rw [List.replicate_succ, List.cons_append, digitsValue, List.foldl_cons]
    show List.foldl _ (0 * base + 0) _ = _
    rw [Nat.zero_mul]
    exact ih

/-- The digits of a number in capital letters, one by one from the last. -/
theorem upperDigits (n : Nat) :
    (∀ c ∈ (Nat.toDigits 16 n).map Char.toUpper, c ∈ "0123456789ABCDEF".toList) ∧
      digitsValue 16 ((Nat.toDigits 16 n).map Char.toUpper) = n := by
  have hdigit : ∀ d < 16, (Nat.digitChar d).toUpper ∈ "0123456789ABCDEF".toList ∧
      digitValue? (Nat.digitChar d).toUpper = some d := by decide
  induction n using Nat.strongRecOn with
  | ind n ih =>
    by_cases hlt : n < 16
    · obtain ⟨hmem, hvalue⟩ := hdigit n hlt
      rw [Nat.toDigits_of_lt_base hlt, List.map_singleton]
      refine ⟨List.forall_mem_singleton.2 hmem, ?_⟩
      rw [← List.nil_append [_], digitsValue_concat 16 [] hvalue]
      exact (Nat.zero_add n)
    · -- the last digit is split off
      obtain ⟨hmem, hvalue⟩ := hdigit (n % 16) (Nat.mod_lt _ (by decide))
      obtain ⟨ihmem, ihvalue⟩ := ih (n / 16) (by omega)
      rw [Nat.toDigits_of_base_le (by decide) (Nat.not_lt.1 hlt), List.map_append,
        List.map_singleton]
      constructor
      · intro c hc
        rcases List.mem_append.1 hc with hc | hc
        · exact ihmem c hc
        · rwa [List.mem_singleton.1 hc]
      · rw [digitsValue_concat 16 _ hvalue, ihvalue]
        omega

theorem isHexadecimal_upperHex {width n : Nat} (h : (Nat.toDigits 16 n).length ≤ width) :
    IsHexadecimal width n (upperHex width n) := by
  have hneg : ¬ ((n : Int) < 0) := by omega
  obtain ⟨hmem, hvalue⟩ := upperDigits n
  rw [upperHex, if_neg hneg, Int.natAbs_natCast]
  refine ⟨?_, fun c hc => ?_, ?_⟩
  · rw [length_padLeft, List.length_map]
    omega
  · rcases List.mem_append.1 hc with hc | hc
    · rw [List.eq_of_mem_replicate hc]
      decide
    · exact hmem c hc
  · rw [digitsValue_padLeft, hvalue]

end HackToolchain.Text
