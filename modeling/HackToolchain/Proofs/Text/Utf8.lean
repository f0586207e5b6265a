import HackToolchain.Text.Utf8
import Mathlib.Data.List.Basic

/-!
# Texts in UTF-8

The bytes of a text have no fault, and so the text is read from them, be it at once or block by
block.  A block may end inside a character; the bytes of that character then wait for the rest.

* `isSequence_encodeChar`: the bytes of a character are found at the front of any bytes, and a part
  of them is a sequence that is cut short;
* `exists_of_block`: a block holds whole characters and perhaps a part of one more;
* `decodeBlocks_encode`: a text is read block by block as it was written.
-/

namespace HackToolchain.Text.Utf8

open String (utf8EncodeChar)

/-! ### The bytes of a character -/

theorem tails_append (more rest : List UInt8) (seen : Nat) (h : ∀ b ∈ more, isTail b = true) :
    tails more.length seen (more ++ rest) = .character (seen + more.length) := by
  induction more generalizing seen with
  | nil => rfl
  | cons b more ih =>
    rw [List.length_cons, List.cons_append, tails, if_pos (h b List.mem_cons_self),
      ih _ fun c hc => h c (List.mem_cons_of_mem b hc)]
    congr 1
    omega

theorem tails_truncated {more : List UInt8} (want seen : Nat) (h : ∀ b ∈ more, isTail b = true)
    (hlength : more.length < want) : ∃ n, tails want seen more = .fault n .truncated := by
  induction more generalizing want seen with
  | nil =>
    cases want with
    | zero => exact absurd hlength (Nat.not_lt_zero _)
    | succ want => exact ⟨seen, rfl⟩
  | cons b more ih =>
    cases want with
    | zero => exact absurd hlength (Nat.not_lt_zero _)
    | succ want =>
      rw [tails, if_pos (h b List.mem_cons_self)]
      exact ih want _ (fun c hc => h c (List.mem_cons_of_mem b hc)) (by simpa using hlength)

/-- The bytes make a sequence: `first` and `tail` are those of a character, in front of whatever,
and a part of them is cut short. -/
def IsSequence (first : UInt8) (tail : List UInt8) : Prop :=
  (∀ rest, front first (tail ++ rest) = .character (tail.length + 1)) ∧
    ∀ xs ys, ys ≠ [] → tail = xs ++ ys → ∃ n, front first xs = .fault n .truncated

theorem isSequence_of_front {first second : UInt8} {more : List UInt8}
    (hfront : ∀ bytes, front first bytes = sequence (more.length + 1) first bytes)
    (hsecond : mayFollow first second = true) (hmore : ∀ b ∈ more, isTail b = true) :
    IsSequence first (second :: more) := by
  constructor
  · intro rest
    rw [hfront, List.cons_append, sequence, if_pos hsecond, Nat.add_sub_cancel,
      tails_append more rest 2 hmore, List.length_cons]
    congr 1
    omega
  · -- a sequence that is cut off is not invalid, as more may follow
    intro xs ys hys hsplit
    rw [hfront]
    cases xs with
    | nil => exact ⟨1, rfl⟩
    | cons x xs =>
      rw [List.cons_append] at hsplit
      obtain ⟨rfl, hxs⟩ := List.cons_eq_cons.1 hsplit
      rw [sequence, if_pos hsecond, Nat.add_sub_cancel]
      apply tails_truncated
      · intro b hb
        exact hmore b (hxs ▸ List.mem_append_left ys hb)
      · rw [hxs, List.length_append]
        have := List.length_pos_iff.2 hys
        omega

theorem isTail_of_toNat {b : UInt8} (hlow : 0x80 ≤ b.toNat) (hhigh : b.toNat < 0xC0) :
    isTail b = true := by
  simp only [isTail, Bool.and_eq_true, decide_eq_true_eq]
  exact ⟨hlow, hhigh⟩

theorem mayFollow_of_toNat {first second : UInt8} (hlow : 0x80 ≤ second.toNat)
    (hhigh : second.toNat < 0xC0) (hE0 : first.toNat = 0xE0 → 0xA0 ≤ second.toNat)
    (hED : first.toNat = 0xED → second.toNat < 0xA0)
    (hF0 : first.toNat = 0xF0 → 0x90 ≤ second.toNat)
    (hF4 : first.toNat = 0xF4 → second.toNat < 0x90) : mayFollow first second = true := by
  simp only [mayFollow, isTail_of_toNat hlow hhigh, Bool.true_and, Bool.and_eq_true,
    Bool.not_eq_true', Bool.and_eq_false_iff, beq_eq_false_iff_ne, decide_eq_false_iff_not, ne_eq,
    ← UInt8.toNat_inj, UInt8.le_iff_toNat_le, UInt8.lt_iff_toNat_lt]
  simp only [UInt8.toNat_ofNat]
  omega

theorem front_eq_of_toNat (first : UInt8) (bytes : List UInt8) : front first bytes =
    if first.toNat < 0x80 then .character 1
    else if first.toNat < 0xC2 then .fault 1 .start
    else if first.toNat < 0xE0 then sequence 1 first bytes
    else if first.toNat < 0xF0 then sequence 2 first bytes
    else if first.toNat < 0xF5 then sequence 3 first bytes
    else .fault 1 .start :=
  rfl

/-- The bytes of a character make a sequence. -/
theorem isSequence_encodeChar (c : Char) :
    ∃ first tail, utf8EncodeChar c = first :: tail ∧ IsSequence first tail := by
  have hvalid : c.val.toNat < 0xD800 ∨ 0xDFFF < c.val.toNat ∧ c.val.toNat < 0x110000 := c.valid
  have htoNat (n : Nat) : (UInt8.ofNat n).toNat = n % 256 := UInt8.toNat_ofNat'
  -- six bits of a character make a byte that continues a sequence
  have htail (n : Nat) : isTail (UInt8.ofNat (n % 64 + 128)) = true := by
    apply isTail_of_toNat
    · rw [htoNat]
      omega
    · rw [htoNat]
      omega
  unfold utf8EncodeChar
  generalize c.val.toNat = v at hvalid
  dsimp only
  -- one byte, two, three or four
  split
  · refine ⟨_, [], rfl, ?_, ?_⟩
    · intro rest
      rw [front_eq_of_toNat, htoNat, if_pos (by omega)]
      rfl
    · intro xs ys hys h
      exact absurd (List.append_eq_nil_iff.1 h.symm).2 hys
  · split
    · refine ⟨_, _, rfl, isSequence_of_front (fun bytes => ?_) ?_ (by simp)⟩
      · rw [front_eq_of_toNat, htoNat, if_neg (by omega), if_neg (by omega), if_pos (by omega)]
        rfl
      · apply mayFollow_of_toNat <;> simp only [htoNat] <;> omega
    · split
      · refine ⟨_, _, rfl, isSequence_of_front (fun bytes => ?_) ?_
          (List.forall_mem_singleton.2 (htail _))⟩
        · rw [front_eq_of_toNat, htoNat, if_neg (by omega), if_neg (by omega), if_neg (by omega),
            if_pos (by omega)]
          rfl
        · apply mayFollow_of_toNat <;> simp only [htoNat] <;> omega
      · refine ⟨_, _, rfl, isSequence_of_front (fun bytes => ?_) ?_
          (List.forall_mem_cons.2 ⟨htail _, List.forall_mem_singleton.2 (htail _)⟩)⟩
        · rw [front_eq_of_toNat, htoNat, if_neg (by omega), if_neg (by omega), if_neg (by omega),
            if_neg (by omega), if_pos (by omega)]
          rfl
        · apply mayFollow_of_toNat <;> simp only [htoNat] <;> omega

/-! ### Finding no fault -/

theorem findFault_go_skip (xs rest : List UInt8) (position : Nat) :
    findFault.go xs.length position (xs ++ rest) =
      findFault.go 0 (position + xs.length) rest := by
  induction xs generalizing position with
  | nil => rfl
  | cons x xs ih =>
    rw [List.length_cons, List.cons_append, findFault.go, ih]
    congr 1
    omega

/-- The bytes of characters are passed over. -/
theorem findFault_go_encode (cs : List Char) (rest : List UInt8) (position : Nat) :
    findFault.go 0 position (cs.flatMap utf8EncodeChar ++ rest) =
      findFault.go 0 (position + (cs.flatMap utf8EncodeChar).length) rest := by
  induction cs generalizing position with
  | nil => rfl
  | cons c cs ih =>
    obtain ⟨first, tail, hc, hsequence, -⟩ := isSequence_encodeChar c
    rw [List.flatMap_cons, hc, List.append_assoc, List.cons_append, findFault.go, hsequence]
    dsimp only
    rw [Nat.add_sub_cancel, findFault_go_skip, ih]
    congr 1
    simp only [List.cons_append, List.length_cons, List.length_append]
    omega

/-- The bytes are not all of those of the first of some characters. -/
def IsPartOf (part : List UInt8) (cs : List Char) : Prop :=
  part = [] ∨ ∃ c rest more, cs = c :: rest ∧ more ≠ [] ∧ utf8EncodeChar c = part ++ more

/-- The front of the bytes of a text holds the characters of the front of the text, and perhaps a
part of one more. -/
theorem exists_of_append_eq_encode {xs ys : List UInt8} {cs : List Char}
    (h : xs ++ ys = cs.flatMap utf8EncodeChar) :
    ∃ front back part, cs = front ++ back ∧ xs = front.flatMap utf8EncodeChar ++ part ∧
      part ++ ys = back.flatMap utf8EncodeChar ∧ IsPartOf part back := by
  induction cs generalizing xs with
  | nil =>
    obtain ⟨rfl, rfl⟩ := List.append_eq_nil_iff.1 h
    exact ⟨[], [], [], rfl, rfl, rfl, .inl rfl⟩
  | cons c cs ih =>
    rw [List.flatMap_cons] at h
    rcases List.append_eq_append_iff.1 h with ⟨more, hc, hys⟩ | ⟨rest, hxs, hcs⟩
    · -- the cut falls into the first character, or right behind it
      by_cases hmore : more = []
      · subst hmore
        rw [List.append_nil] at hc
        rw [List.nil_append] at hys
        refine ⟨[c], cs, [], rfl, ?_, hys, .inl rfl⟩
        rw [List.flatMap_singleton, List.append_nil, hc]
      · refine ⟨[], c :: cs, xs, rfl, rfl, ?_, .inr ⟨c, cs, more, rfl, hmore, hc⟩⟩
        rw [List.flatMap_cons, h]
    · obtain ⟨front, back, part, rfl, rfl, hback, hpart⟩ := ih hcs.symm
      refine ⟨c :: front, back, part, rfl, ?_, hback, hpart⟩
      rw [hxs, List.flatMap_cons, List.append_assoc]

/-- In such bytes the only fault is the part of a character at the end. -/
theorem findFault_part {part : List UInt8} {cs : List Char} (h : IsPartOf part cs)
    (position : Nat) :
    part = [] ∧ findFault.go 0 position part = none ∨
      ∃ length byte, findFault.go 0 position part = some ⟨position, length, byte, .truncated⟩ := by
  by_cases hpart : part = []
  · subst hpart
    exact .inl ⟨rfl, rfl⟩
  · obtain ⟨c, rest, more, -, hmore, hc⟩ := h.resolve_left hpart
    obtain ⟨first, tail, hfirst, -, hcut⟩ := isSequence_encodeChar c
    cases part with
    | nil => contradiction
    | cons b part =>
      rw [hfirst, List.cons_append] at hc
      obtain ⟨rfl, htail⟩ := List.cons_eq_cons.1 hc
      obtain ⟨n, hn⟩ := hcut part more hmore htail
      refine .inr ⟨n, first, ?_⟩
      rw [findFault.go, hn]

/-! ### Blocks -/

theorem toList_loop (bytes : ByteArray) (i : Nat) (done : List UInt8) :
    ByteArray.toList.loop bytes i done = done.reverse ++ bytes.data.toList.drop i := by
  fun_induction ByteArray.toList.loop bytes i done with
  | case1 i done h ih =>
    have hi : i < bytes.data.toList.length := by simpa using h
    rw [ih, List.drop_eq_getElem_cons hi]
    simp [ByteArray.get!, h]
  | case2 i done h =>
    rw [List.drop_eq_nil_of_le (by simpa using h), List.append_nil]

theorem toList_eq_data (bytes : ByteArray) : bytes.toList = bytes.data.toList := by
  rw [ByteArray.toList, toList_loop]
  rfl

theorem toList_append (xs ys : ByteArray) : (xs ++ ys).toList = xs.toList ++ ys.toList := by
  simp only [toList_eq_data, ByteArray.data_append, Array.toList_append]

theorem toList_extract (bytes : ByteArray) (i j : Nat) :
    (bytes.extract i j).toList = (bytes.toList.take j).drop i := by
  simp only [toList_eq_data, ByteArray.data_extract, Array.toList_extract,
    List.extract_eq_drop_take']

/-- The bytes of characters are read as these. -/
theorem fromUTF8?_eq {bytes : ByteArray} {cs : List Char}
    (h : bytes.toList = cs.flatMap utf8EncodeChar) :
    String.fromUTF8? bytes = some (String.ofList cs) := by
  have hbytes : bytes = (String.ofList cs).toByteArray := by
    apply ByteArray.ext
    apply Array.toList_inj.1
    rw [← toList_eq_data, h, String.toByteArray_ofList, List.utf8Encode,
      List.toList_data_toByteArray]
  rw [hbytes, String.fromUTF8?, dif_pos (String.isValidUTF8 _)]
  rfl

/-- A block behind the bytes that were left of the one before holds the front of a text.  Its only
fault is the part of a character at its end. -/
theorem exists_of_block {bytes carry : ByteArray} {cs : List Char} (i : Nat)
    (h : carry.toList ++ bytes.toList.drop i = cs.flatMap utf8EncodeChar) :
    let data := carry ++ bytes.extract i (i + blockSize)
    ∃ front back part, cs = front ++ back ∧
      data.toList = front.flatMap utf8EncodeChar ++ part ∧
      part ++ bytes.toList.drop (i + blockSize) = back.flatMap utf8EncodeChar ∧
      IsPartOf part back ∧
      (part = [] ∧ findFault data.toList = none ∨ ∃ length byte, findFault data.toList =
        some ⟨(front.flatMap utf8EncodeChar).length, length, byte, .truncated⟩) := by
  intro data
  have hdata : data.toList ++ bytes.toList.drop (i + blockSize) = cs.flatMap utf8EncodeChar := by
    rw [← h, toList_append, toList_extract, List.append_assoc, List.drop_take,
      Nat.add_sub_cancel_left, ← List.drop_drop, List.take_append_drop]
  obtain ⟨front, back, part, rfl, hfront, hback, hpart⟩ := exists_of_append_eq_encode hdata
  refine ⟨front, back, part, rfl, hfront, hback, hpart, ?_⟩
  have hfind := findFault_go_encode front part 0
  rw [Nat.zero_add] at hfind
  rw [findFault, hfront, hfind]
  exact findFault_part hpart _

theorem decodeBlocks_go_encode {bytes carry : ByteArray} {i : Nat} {text : String} {cs : List Char}
    (hpart : IsPartOf carry.toList cs)
    (h : carry.toList ++ bytes.toList.drop i = cs.flatMap utf8EncodeChar) :
    decodeBlocks.go bytes i carry text = (text ++ String.ofList cs, none) := by
  fun_induction decodeBlocks.go bytes i carry text generalizing cs with
  | case1 i carry text hi data hfault =>
    rename_i ih
    obtain ⟨front, back, part, rfl, hfront, hback, -, ⟨rfl, -⟩ | ⟨length, byte, hfind⟩⟩ :=
      exists_of_block i h
    · rw [List.append_nil] at hfront
      have hempty : ByteArray.empty.toList = [] := toList_eq_data _
      rw [ih (.inl hempty) (hempty ▸ hback), fromUTF8?_eq hfront, Option.getD_some,
        String.ofList_append, String.append_assoc]
    · exact absurd (hfault.symm.trans hfind) (by simp)
  | case2 i carry text hi data fault hfault htruncated =>
    rename_i ih
    obtain ⟨front, back, part, rfl, hfront, hback, hpart, ⟨-, hfind⟩ | ⟨length, byte, hfind⟩⟩ :=
      exists_of_block i h
    · exact absurd (hfault.symm.trans hfind) (by simp)
    · -- what is whole is read, and what is left is carried over to the next block
      have hposition : fault.position = (front.flatMap utf8EncodeChar).length := by
        rw [hfault, Option.some.injEq] at hfind
        rw [hfind]
      have hread : (data.extract 0 fault.position).toList = front.flatMap utf8EncodeChar := by
        rw [toList_extract, List.drop_zero, hposition]
        exact hfront ▸ List.take_left
      have hleft : (data.extract fault.position data.size).toList = part := by
        have hsize : data.toList.length = data.size := by
          rw [toList_eq_data]
          rfl
        rw [toList_extract, hposition, ← hsize, List.take_length, hfront, List.drop_left]
      rw [ih (hleft ▸ hpart) (hleft ▸ hback), fromUTF8?_eq hread, Option.getD_some,
        String.ofList_append, String.append_assoc]
  | case3 i carry text hi data fault hfault =>
    rename_i htruncated
    obtain ⟨front, back, part, -, -, -, -, ⟨-, hfind⟩ | ⟨length, byte, hfind⟩⟩ :=
      exists_of_block i h
    · exact absurd (hfault.symm.trans hfind) (by simp)
    · rw [hfault, Option.some.injEq] at hfind
      exact absurd (hfind ▸ rfl) htruncated
  | case4 i carry text hi =>
    have hdrop : bytes.toList.drop i = [] := by
      rw [toList_eq_data]
      exact List.drop_eq_nil_of_le (by simpa using hi)
    rw [hdrop, List.append_nil] at h
    -- what is left of the last block is no whole character, so it is nothing
    cases cs with
    | nil => simp [h, findFault, findFault.go]
    | cons c cs =>
      have hlength := congrArg List.length h
      rw [List.flatMap_cons, List.length_append] at hlength
      rcases hpart with hnil | ⟨d, rest, more, heq, hmore, hd⟩
      · obtain ⟨first, tail, hc, -⟩ := isSequence_encodeChar c
        rw [hnil, hc, List.length_nil, List.length_cons] at hlength
        omega
      · obtain ⟨rfl, -⟩ := List.cons_eq_cons.1 heq
        rw [hd, List.length_append] at hlength
        have := List.length_pos_iff.2 hmore
        omega

/-- Bytes that are read as a text are the bytes of the text. -/
theorem eq_encode_of_decode {bytes : ByteArray} {text : String} (h : decode bytes = .ok text) :
    bytes = encode text := by
  unfold decode String.fromUTF8? at h
  split at h
  · rename_i heq
    split at heq
    · injection h with h
      injection heq with heq
      rw [← h, ← heq]
      rfl
    · cases heq
  · cases h

/-- A text is read block by block as it was written. -/
theorem decodeBlocks_encode (text : String) : decodeBlocks (encode text) = (text, none) := by
  have hempty : ByteArray.empty.toList = [] := toList_eq_data _
  have hbytes : (encode text).toList = text.toList.flatMap utf8EncodeChar := by
    rw [toList_eq_data, encode, String.toUTF8, ← String.ofList_toList (s := text),
      String.toByteArray_ofList, List.utf8Encode, List.toList_data_toByteArray,
      String.toList_ofList]
  rw [decodeBlocks, decodeBlocks_go_encode (.inl hempty)
    (by rw [hempty, List.nil_append, List.drop_zero, hbytes])]
  simp

end HackToolchain.Text.Utf8
