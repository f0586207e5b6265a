import HackToolchain.Machine.Report
import HackToolchain.Proofs.Text.Numeral
import HackToolchain.Proofs.Text.Utf8
import HackToolchain.Proofs.VM.Compilation

/-!
# Texts in files

What a text becomes on its way through a file.  Reading writes carriage returns as line feeds, so a
text without them comes back as it was.

* `textOfFile_encode`: a text without carriage returns is read as it was written;
* `Schedule.ofBytes_encode`: a schedule and a copy of its text are read alike;
* `return_notMem_report`: a report has no carriage returns.
-/

namespace HackToolchain

open Text

/-! ### Reading back -/

/-- A text without carriage returns is read as it was written. -/
theorem VM.textOfFile_encode {text : String} (h : '\r' ∉ text.toList) :
    VM.textOfFile (Utf8.encode text) = .ok text := by
  rw [textOfFile, Utf8.decode_encode, Except.map, unifyNewlines_eq_self h, String.ofList_toList]

/-- Lines without line ends are joined to a text without carriage returns. -/
theorem Text.return_notMem_unlines {lines : List String}
    (h : ∀ line ∈ lines, IsUnbroken line.toList) : '\r' ∉ (unlines lines).toList := by
  cases lines with
  | nil => decide
  | cons line lines =>
    rw [toList_unlines]
    intro hmem
    obtain ⟨cs, hcs, hmem⟩ := List.mem_flatMap.1 hmem
    obtain ⟨x, hx, rfl⟩ := List.mem_map.1 hcs
    rcases List.mem_append.1 hmem with hmem | hmem
    · exact absurd (h x hx _ hmem) (by decide)
    · exact absurd hmem (by decide)

namespace Machine

/-- A schedule and a copy of its text are read alike, though the copy has line feeds in place of
carriage returns. -/
theorem Schedule.ofBytes_encode {bytes : ByteArray} {text : String}
    (h : VM.textOfFile bytes = .ok text) :
    Schedule.ofBytes (Utf8.encode text) = Schedule.ofBytes bytes := by
  unfold VM.textOfFile at h
  cases hdecode : Utf8.decode bytes with
  | error fault =>
    rw [hdecode] at h
    cases h
  | ok original =>
    rw [hdecode] at h
    injection h with h
    have hlines : allLines text.toList = allLines original.toList := by
      rw [← h, String.toList_ofList, allLines, unifyNewlines_unifyNewlines]
      rfl
    rw [Utf8.eq_encode_of_decode hdecode, ofBytes, ofBytes, Utf8.decodeBlocks_encode,
      Utf8.decodeBlocks_encode]
    dsimp only
    rw [hlines]

theorem isUnbroken_reportLine {cells : Array Int} {address : Int} {line : String}
    (h : reportLine cells address = .ok line) : IsUnbroken line.toList := by
  unfold reportLine at h
  cases hvalue : reportValue cells address with
  | error error =>
    rw [hvalue] at h
    cases h
  | ok value =>
    simp only [hvalue, bind, Except.bind] at h
    split at h
    · cases h
    · rename_i numeral hnumeral
      injection h with h
      rw [← h, writeNumeral_eq_ok hnumeral]
      simp only [String.toList_append]
      exact ((((isUnbroken_of_all rfl).append (isUnbroken_toString _)).append
        (isUnbroken_of_all rfl)).append (isUnbroken_toString _))

/-- A report has no carriage returns. -/
theorem return_notMem_report {cells : Array Int} {addresses : List Int} {text : String}
    (h : report cells addresses = .ok text) : '\r' ∉ text.toList := by
  unfold report at h
  split at h
  · cases h
  · rename_i pointer hpointer
    cases hlines : addresses.mapM (reportLine cells) with
    | error error =>
      rw [hlines] at h
      cases h
    | ok lines =>
      rw [hlines] at h
      injection h with h
      rw [← h]
      apply return_notMem_unlines
      intro line hline
      rcases List.mem_cons.1 hline with rfl | hline
      · rw [String.toList_append]
        exact (isUnbroken_of_all rfl).append (isUnbroken_toString _)
      · obtain ⟨address, -, hread⟩ := Asm.exists_of_mem_mapM hlines hline
        exact isUnbroken_reportLine hread

end Machine

end HackToolchain
