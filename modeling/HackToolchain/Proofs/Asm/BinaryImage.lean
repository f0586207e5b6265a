import HackToolchain.Proofs.Asm.Image

/-!
# Binary images

A text is a binary image if each of its lines is blank or holds a word, which may have blanks around
it.  Reading takes exactly these texts, and of any other it reports the first line that is neither.
Writing what has been read gives the words of the text, each on a line of its own; reading what has
been written gives the last sixteen bits of each word.

* `binaryDigits_binaryValue`: the digits of the value of a word are the word;
* `readBinaryImage_go_cases`: the lines are read up to the first one that holds neither a word nor
  nothing;
* `binaryImage_roundTrip`: the two ways around.
-/

namespace HackToolchain.Asm

open Text

/-! ### The value of binary digits -/

/-- A binary digit. -/
def IsBit (c : Char) : Prop := c = '0' ∨ c = '1'

instance : DecidablePred IsBit := fun c => inferInstanceAs (Decidable (c = '0' ∨ c = '1'))

/-- The number that a binary digit stands for. -/
def bitValue (c : Char) : Nat := if c = '1' then 1 else 0

theorem binaryValue_concat (cs : List Char) (c : Char) :
    binaryValue (cs ++ [c]) = 2 * binaryValue cs + bitValue c := by
  rw [binaryValue, List.foldl_append]
  rfl

theorem bitValue_lt (c : Char) : bitValue c < 2 := by
  unfold bitValue
  split <;> decide

theorem binaryValue_lt (cs : List Char) : binaryValue cs < Nat.pow 2 cs.length := by
  induction cs using List.reverseRecOn with
  | nil => exact Nat.one_pos
  | append_singleton cs c ih =>
    have := bitValue_lt c
    rw [binaryValue_concat, List.length_append, List.length_singleton]
    show _ < Nat.pow 2 cs.length * 2
    omega

/-- The digits of a number, `width` of them. -/
def bits (width n : Nat) : List Char :=
  (List.range width).map fun i => if n.testBit (width - 1 - i) then '1' else '0'

/-- The last digit is the last bit, and the others are the digits of the half. -/
theorem bits_succ (width n : Nat) :
    bits (width + 1) n = bits width (n / 2) ++ [if n.testBit 0 then '1' else '0'] := by
  rw [bits, List.range_succ, List.map_append, List.map_singleton]
  congr 1
  · refine List.map_congr_left fun i hi => ?_
    have hplace : width + 1 - 1 - i = width - 1 - i + 1 := by
      have := List.mem_range.1 hi
      omega
    rw [hplace, Nat.testBit_succ]
  · rw [Nat.add_sub_cancel, Nat.sub_self]

theorem bits_binaryValue {cs : List Char} (h : ∀ c ∈ cs, IsBit c) :
    bits cs.length (binaryValue cs) = cs := by
  induction cs using List.reverseRecOn with
  | nil => rfl
  | append_singleton cs c ih =>
    obtain ⟨hcs, hc⟩ := List.forall_mem_append.1 h
    have hhalf : binaryValue (cs ++ [c]) / 2 = binaryValue cs := by
      have := bitValue_lt c
      rw [binaryValue_concat]
      omega
    have hlast : (binaryValue (cs ++ [c])).testBit 0 = decide (c = '1') := by
      rw [binaryValue_concat, Nat.testBit_zero, bitValue]
      split <;> simp_all
    rw [List.length_append, List.length_singleton, bits_succ, hhalf, hlast, ih hcs]
    rcases List.forall_mem_singleton.1 hc with rfl | rfl <;> rfl

theorem isBinaryWord_iff {cs : List Char} :
    isBinaryWord cs = true ↔ cs.length = 16 ∧ ∀ c ∈ cs, IsBit c := by
  simp only [isBinaryWord, Bool.and_eq_true, beq_iff_eq, List.all_eq_true, Bool.or_eq_true, IsBit]

/-- The digits of the value of a word are the word. -/
theorem binaryDigits_binaryValue {cs : List Char} (h : isBinaryWord cs = true) :
    binaryDigits (binaryValue cs) = cs := by
  obtain ⟨hlength, hbits⟩ := isBinaryWord_iff.1 h
  have hlt : binaryValue cs < 0x10000 := by
    have hpower := binaryValue_lt cs
    rwa [hlength] at hpower
  have hword : Word.toNat (binaryValue cs) = binaryValue cs := by
    rw [Word.toNat]
    omega
  have hdigits := bits_binaryValue hbits
  rw [hlength] at hdigits
  rw [binaryDigits, hword]
  exact hdigits

/-! ### Lines -/

/-- What a line of a binary image is: it is blank, or holds a word. -/
def IsImageLine (line : List Char) : Prop :=
  strip line = [] ∨ (strip line).length = 16 ∧ ∀ c ∈ strip line, IsBit c

/-- What the lines hold without the blanks around it, without lines that hold nothing. -/
def lineTexts (lines : List (List Char)) : List (List Char) :=
  (lines.map strip).filter (· ≠ [])

variable {line : List Char} {lines : List (List Char)}

theorem lineTexts_cons_of_blank (h : strip line = []) :
    lineTexts (line :: lines) = lineTexts lines := by
  simp [lineTexts, h]

theorem lineTexts_cons (h : strip line ≠ []) :
    lineTexts (line :: lines) = strip line :: lineTexts lines := by
  simp [lineTexts, h]

/-- The result reports the first line that holds neither a word nor nothing, the lines being
numbered from `number` on. -/
def ReportsFirst (number : Nat) (lines : List (List Char)) (result : Except Error (Array Int)) :
    Prop :=
  ∃ front line back, lines = front ++ line :: back ∧ (∀ x ∈ front, IsImageLine x) ∧
    ¬ IsImageLine line ∧
    result = .error (.line (.word (String.ofList (strip line))) (number + front.length))

theorem ReportsFirst.cons {number : Nat} {result : Except Error (Array Int)}
    (h : ReportsFirst (number + 1) lines result) (hline : IsImageLine line) :
    ReportsFirst number (line :: lines) result := by
  obtain ⟨front, bad, back, rfl, hfront, hbad, rfl⟩ := h
  refine ⟨line :: front, bad, back, rfl, List.forall_mem_cons.2 ⟨hline, hfront⟩, hbad, ?_⟩
  rw [List.length_cons, Nat.add_assoc, Nat.add_comm 1]

/-- The lines of a binary image are read as the words that they hold.  If some line holds neither a
word nor nothing, the first such line is reported. -/
theorem readBinaryImage_go_cases (number : Nat) (done : Array Int) (lines : List (List Char)) :
    ((∀ line ∈ lines, IsImageLine line) ∧ ∃ words : List Int,
      readBinaryImage.go number done lines = .ok (done ++ words) ∧
        words.map binaryDigits = lineTexts lines) ∨
      ReportsFirst number lines (readBinaryImage.go number done lines) := by
  induction lines generalizing number done with
  | nil =>
    refine .inl ⟨fun _ h => absurd h List.not_mem_nil, [], ?_, rfl⟩
    simp [readBinaryImage.go]
  | cons line lines ih =>
    by_cases hblank : strip line = []
    · -- a blank line is counted and otherwise passed over
      have hgo : readBinaryImage.go number done (line :: lines) =
          readBinaryImage.go (number + 1) done lines := by
        simp only [readBinaryImage.go, hblank, List.isEmpty_nil, if_true]
      rw [hgo, lineTexts_cons_of_blank hblank]
      rcases ih (number + 1) done with ⟨hlines, hread⟩ | hfirst
      · exact .inl ⟨List.forall_mem_cons.2 ⟨.inl hblank, hlines⟩, hread⟩
      · exact .inr (hfirst.cons (.inl hblank))
    · have hempty : (strip line).isEmpty = false := List.isEmpty_eq_false_iff.2 hblank
      by_cases hword : isBinaryWord (strip line) = true
      · -- the word goes behind those read so far
        have hline : IsImageLine line := .inr (isBinaryWord_iff.1 hword)
        have hgo : readBinaryImage.go number done (line :: lines) =
            readBinaryImage.go (number + 1) (done.push (binaryValue (strip line))) lines := by
          simp only [readBinaryImage.go, hempty, hword, Bool.false_eq_true, if_false, if_true]
        rw [hgo, lineTexts_cons hblank]
        rcases ih (number + 1) (done.push (binaryValue (strip line))) with
          ⟨hlines, words, hread, hwords⟩ | hfirst
        · refine .inl ⟨List.forall_mem_cons.2 ⟨hline, hlines⟩, binaryValue (strip line) :: words,
            ?_, ?_⟩
          · rw [hread]
            simp
          · rw [List.map_cons, binaryDigits_binaryValue hword, hwords]
        · exact .inr (hfirst.cons hline)
      · -- any other line ends the reading, at its number
        refine .inr ⟨[], line, lines, rfl, fun _ h => absurd h List.not_mem_nil, ?_, ?_⟩
        · rintro (h | h)
          · exact hblank h
          · exact hword (isBinaryWord_iff.2 h)
        · simp only [readBinaryImage.go, hempty, hword, Bool.false_eq_true, if_false,
            List.length_nil, Nat.add_zero]

/-- The two ways around.  Words that have been written are read as their last sixteen bits.  A text
is read if each of its lines is blank or holds a word, and then writing gives what its lines hold,
each on a line of its own; otherwise the first line that holds something else is reported. -/
theorem binaryImage_roundTrip (words : List Int) (text : String) :
    readBinaryImage (binaryImage words) = .ok (words.map (· % 0x10000)).toArray ∧
    match readBinaryImage text with
    | .ok read => (∀ line ∈ splitLines text.toList, IsImageLine line) ∧
        (binaryImage read.toList).toList =
          (lineTexts (splitLines text.toList)).flatMap (· ++ ['\n'])
    | .error error => ∃ front line back, splitLines text.toList = front ++ line :: back ∧
        (∀ x ∈ front, IsImageLine x) ∧ ¬ IsImageLine line ∧
        error = .line (.word (String.ofList (strip line))) (front.length + 1) := by
  constructor
  · -- sixteen digits keep a word up to multiples of `0x10000`
    rw [readBinaryImage_binaryImage]
    congr 2
    refine List.map_congr_left fun w _ => ?_
    rw [Word.toNat]
    omega
  · -- what is read prints as the lines it comes from
    rcases readBinaryImage_go_cases 1 #[] (splitLines text.toList) with
      ⟨hlines, read, hread, hwords⟩ | ⟨front, line, back, hsplit, hfront, hline, hread⟩
    · rw [readBinaryImage, hread]
      refine ⟨hlines, ?_⟩
      rw [toList_binaryImage, ← hwords]
      simp
    · rw [readBinaryImage, hread]
      exact ⟨front, line, back, hsplit, hfront, hline, by rw [Nat.add_comm]⟩

end HackToolchain.Asm
