import HackToolchain.Proofs.VM.Names

/-!
# Symbols taken apart

The symbols in the code of a program are put together from names and numbers.  Which ones a symbol
was made of can be told from the symbol.

* `Scope.staticSymbol_inj`: the last dot in the symbol of a static variable separates the name of
  the unit, which may hold dots and digits itself, from the index;
* `Scope.qualify_inj`: the first dollar sign in the symbol of a label in a function separates the
  two names, if the name of the function holds none;
* `Scope.numbered_inj`: the digits at the end of a generated symbol are its number.
-/

namespace HackToolchain.VM.Scope

open Text

variable {s t : Scope}

theorem notMem_toString {mark : Char} (hdigit : mark.isDigit = false) (hminus : mark ≠ '-')
    (n : Int) : mark ∉ (toString n).toList := by
  intro hmem
  rcases mem_toString_int hmem with h | h
  · rw [hdigit] at h
    contradiction
  · exact hminus h

theorem toList_staticSymbol (s : Scope) (index : Int) :
    (s.staticSymbol index).toList = s.unitName.toList ++ '.' :: (toString index).toList := by
  rw [staticSymbol, String.toList_append, String.toList_append, List.append_assoc]
  rfl

/-- Static variables with the same symbol have the same unit and the same index. -/
theorem staticSymbol_inj {i j : Int} (hi : 0 ≤ i) (hj : 0 ≤ j)
    (h : s.staticSymbol i = t.staticSymbol j) : s.unitName = t.unitName ∧ i = j := by
  have hlist := congrArg String.toList h
  rw [toList_staticSymbol, toList_staticSymbol] at hlist
  obtain ⟨hunit, hindex⟩ := append_cons_inj_of_last (notMem_toString rfl (by decide) i)
    (notMem_toString rfl (by decide) j) hlist
  exact ⟨String.toList_inj.1 hunit, toString_int_injective hi hj (String.toList_inj.1 hindex)⟩

theorem toList_qualify (hs : s.functionName ≠ "") (name : String) :
    (s.qualify name).toList = s.functionName.toList ++ '$' :: name.toList := by
  rw [qualify, if_neg (by rwa [String.isEmpty_iff]), String.toList_append, String.toList_append,
    List.append_assoc]
  rfl

/-- Labels in functions with the same symbol have the same function and the same name. -/
theorem qualify_inj (hs : s.functionName ≠ "") (ht : t.functionName ≠ "")
    (hs' : '$' ∉ s.functionName.toList) (ht' : '$' ∉ t.functionName.toList) {name other : String}
    (h : s.qualify name = t.qualify other) :
    s.functionName = t.functionName ∧ name = other := by
  have hlist := congrArg String.toList h
  rw [toList_qualify hs, toList_qualify ht] at hlist
  obtain ⟨hfunction, hname⟩ := append_cons_inj_of_first hs' ht' hlist
  exact ⟨String.toList_inj.1 hfunction, String.toList_inj.1 hname⟩

theorem exists_toList_stem {stem : String} (h : stem ∈ stems) :
    ∃ front, stem.toList = front ++ ['_'] ∧ '$' ∉ front := by
  simp only [stems, List.mem_cons, List.not_mem_nil, or_false] at h
  rcases h with rfl | rfl | rfl
  · exact ⟨['R', 'E', 'T'], rfl, by decide⟩
  · exact ⟨['T', 'R', 'U', 'E'], rfl, by decide⟩
  · exact ⟨['E', 'N', 'D'], rfl, by decide⟩

/-- Generated symbols that are the same have the same stem and the same number. -/
theorem numbered_inj {stem other : String} (hstem : stem ∈ stems) (hother : other ∈ stems)
    (hs : 0 ≤ s.labelsUsed) (ht : 0 ≤ t.labelsUsed) (h : s.numbered stem = t.numbered other) :
    stem = other ∧ s.labelsUsed = t.labelsUsed := by
  obtain ⟨front, hfront, -⟩ := exists_toList_stem hstem
  obtain ⟨front', hfront', -⟩ := exists_toList_stem hother
  have hlist := congrArg String.toList h
  simp only [numbered, String.toList_append, hfront, hfront', List.append_assoc,
    List.singleton_append] at hlist
  obtain ⟨hsame, hnumber⟩ := append_cons_inj_of_last (notMem_toString rfl (by decide) _)
    (notMem_toString rfl (by decide) _) hlist
  refine ⟨String.toList_inj.1 ?_, toString_int_injective hs ht (String.toList_inj.1 hnumber)⟩
  rw [hfront, hfront', hsame]

theorem dollar_notMem_numbered {stem : String} (hstem : stem ∈ stems) :
    '$' ∉ (s.numbered stem).toList := by
  obtain ⟨front, hfront, hmark⟩ := exists_toList_stem hstem
  rw [numbered, String.toList_append, hfront, List.mem_append, List.mem_append, not_or, not_or]
  exact ⟨⟨hmark, by decide⟩, notMem_toString rfl (by decide) _⟩

/-! ### Symbols that mean something else -/

theorem predefined?_eq_none {name : String} (mark : Char) (hmark : mark ∈ ['.', '$', '_'])
    (hmem : mark ∈ name.toList) : MemoryMap.predefined? name = none := by
  have hall : ∀ entry ∈ MemoryMap.predefined,
      '.' ∉ entry.1.toList ∧ '$' ∉ entry.1.toList ∧ '_' ∉ entry.1.toList := by
    decide
  rw [Option.eq_none_iff_forall_ne_some]
  intro address haddress
  obtain ⟨hdot, hdollar, hline⟩ := hall _ (Asm.mem_predefined haddress)
  simp only [List.mem_cons, List.not_mem_nil, or_false] at hmark
  rcases hmark with rfl | rfl | rfl
  · exact hdot hmem
  · exact hdollar hmem
  · exact hline hmem

theorem dot_mem_staticSymbol (s : Scope) (index : Int) : '.' ∈ (s.staticSymbol index).toList := by
  rw [toList_staticSymbol]
  simp

theorem isDigits_staticSymbol (s : Scope) (index : Int) :
    Asm.isDigits (s.staticSymbol index).toList = false :=
  Asm.isDigits_eq_false (isDigit_of_not_asciiDigit (by decide) (by decide))
    (dot_mem_staticSymbol s index)

/-- The symbol of a static variable is no numeral and not predefined. -/
theorem staticSymbol_ne (s : Scope) (index : Int) :
    Asm.digitsNumber? (s.staticSymbol index) = none ∧
      MemoryMap.predefined? (s.staticSymbol index) = none := by
  refine ⟨?_, predefined?_eq_none '.' (by decide) (dot_mem_staticSymbol s index)⟩
  rw [Asm.digitsNumber?, isDigits_staticSymbol]
  rfl

/-- A generated symbol is not predefined. -/
theorem predefined?_numbered {stem : String} (hstem : stem ∈ stems) :
    MemoryMap.predefined? (s.numbered stem) = none := by
  obtain ⟨front, hfront, -⟩ := exists_toList_stem hstem
  refine predefined?_eq_none '_' (by decide) ?_
  rw [numbered, String.toList_append, hfront]
  simp

/-- Neither is the symbol of a label in a function. -/
theorem predefined?_qualify (hs : s.functionName ≠ "") (name : String) :
    MemoryMap.predefined? (s.qualify name) = none := by
  refine predefined?_eq_none '$' (by decide) ?_
  rw [toList_qualify hs]
  simp

end HackToolchain.VM.Scope
