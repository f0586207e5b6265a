import HackToolchain.Cli.Simulate
import HackToolchain.Proofs.Asm.Image
import HackToolchain.Proofs.Asm.Words
import HackToolchain.Proofs.VM.Placement

/-!
# The files of a compiled program

A compiled program can be kept in two files: its code, and the binary image of its words.  A machine
that is started from either of them runs the same words.

* `isUnbroken_text`: no line of the code is broken, whatever the units are named and whatever
  they hold, if the code is assembled at all;
* `readProgram_artifacts`: so the words of the program are read from both files.
-/

namespace HackToolchain.Asm

open Text

/-! ### Symbols that are read -/

theorem isLineBreak_of_isDigit {c : Char} (h : isDigit c = true) : isLineBreak c = false :=
  isLineBreak_of_pos (by decide +kernel) h

theorem isLineBreak_of_isSymbolChar {c : Char} (h : isSymbolChar c = true) :
    isLineBreak c = false :=
  isLineBreak_of_pos (by decide +kernel) h

theorem isLineBreak_of_isSymbolStart {c : Char} (h : isSymbolStart c = true) :
    isLineBreak c = false :=
  isLineBreak_of_pos (by decide +kernel) h

/-- No line ends in a symbol, unless at its own end. -/
theorem isUnbroken_of_isSymbol {cs : List Char} (h : isSymbol cs = true)
    (hlast : ∀ c ∈ cs.getLast?, isBlank c = false) : IsUnbroken cs := by
  cases cs with
  | nil => exact fun _ hc => absurd hc List.not_mem_nil
  | cons c cs =>
    rw [isSymbol, Bool.and_eq_true, List.all_eq_true] at h
    -- only a line feed at the end passes for part of a symbol
    have hdrop : dropFinalFeed cs = cs := by
      rw [dropFinalFeed, if_neg]
      rw [beq_iff_eq]
      intro hfeed
      have hblank := hlast '\n' (by rw [List.getLast?_cons, hfeed]; rfl)
      exact absurd hblank (by decide)
    rw [hdrop] at h
    intro d hd
    rcases List.mem_cons.1 hd with rfl | hd
    · exact isLineBreak_of_isSymbolStart h.1
    · exact isLineBreak_of_isSymbolChar (h.2 d hd)

/-- No line ends in a symbol that is read, unless at its own end. -/
theorem Address.isUnbroken_of_read {number : Nat} {cs : List Char} {a : Address}
    (h : Address.read number cs = .ok a) (hlast : ∀ c ∈ cs.getLast?, isBlank c = false) :
    IsUnbroken cs := by
  unfold Address.read at h
  split at h
  · rename_i hdigits
    rw [Bool.and_eq_true, List.all_eq_true] at hdigits
    exact fun c hc => isLineBreak_of_isDigit (hdigits.2 c hc)
  · split at h
    · exact isUnbroken_of_isSymbol ‹_› hlast
    · cases h

end HackToolchain.Asm

namespace HackToolchain.VM

open Asm Text

/-! ### Lines of code -/

/-- No line ends in the text of a statement of a well-formed instruction, if the text is read at
all. -/
theorem Placed.IsWellFormed.isUnbroken {p : Placed} (hp : p.IsWellFormed)
    (hunit : '/' ∉ p.scope.unitName.toList) {x : Statement} (hx : x ∈ p.code) {number : Nat}
    {y : Option Statement} (hread : Statement.read number x.text = .ok y) :
    IsUnbroken x.text.toList := by
  have hclean := hp.isClean hunit x hx
  cases x with
  | address a =>
    rw [Statement.read_address hclean] at hread
    obtain ⟨b, hb, -⟩ := Except.map_eq_ok hread
    rw [Statement.toList_text_address]
    exact (Address.isUnbroken_of_read hb (a.isPlain_text hclean).2).cons (by decide)
  | label name =>
    -- the label is declared by its instruction, and what an instruction declares is one token
    have hdeclares : name ∈ p.instruction.declares p.scope := by
      rw [← Instruction.labels_code]
      exact mem_labels.2 hx
    have htoken := Instruction.isToken_declares hp.scope_isNamed hp.isNamed name hdeclares
    rw [Statement.toList_text_label]
    exact (htoken.isUnbroken.append (isUnbroken_of_all rfl)).cons (by decide)
  | compute k =>
    exact fun c hc => isLineBreak_of_not_blank (isBlank_of_isFieldChar (Compute.mem_text hc))

/-- No line of the code of a compiled program is broken, if the code is assembled. -/
theorem isUnbroken_text {files : List SourceFile} {bootstrap comments : Bool} {text : List String}
    {words : Array Int} (hpaths : PathsAreProper files)
    (hcompile : compile files bootstrap comments = .ok text)
    (hassemble : assemble text = .ok words) : ∀ line ∈ text, IsUnbroken line.toList := by
  obtain ⟨hread, -, -⟩ := assembled_of_compile hpaths hcompile hassemble
  obtain ⟨hlegal, lines, rfl, hstatements, hcomments⟩ := compile_eq_ok hcompile
  intro text htext
  obtain ⟨line, hline, rfl⟩ := List.mem_map.1 htext
  cases line with
  | comment comment =>
    rw [Line.text, String.toList_append]
    exact (isUnbroken_of_all rfl).append (hcomments comment hline)
  | statement x =>
    have hx : x ∈ codeOf (programOf files bootstrap) := by
      rw [← hstatements]
      exact List.mem_filterMap.2 ⟨_, hline, rfl⟩
    obtain ⟨p, hp, hx⟩ := List.mem_flatMap.1 hx
    obtain ⟨number, y, hy⟩ := exists_read_of_mem hread htext
    exact (isWellFormed_programOf hlegal p hp).isUnbroken (slash_notMem_unitName hpaths p hp) hx hy

end HackToolchain.VM

namespace HackToolchain.Cli

open Asm Text VM Session

/-! ### Files -/

/-- The file that a path leads to holds a text. -/
def Session.Holds (s : Session) (path text : String) : Prop :=
  s.tree.read s.directory (Files.Path.ofText path) = .ok (Utf8.encode text)

theorem Simulate.readProgram_eq {s : Session} {path text : String} {words : Array Int}
    (hfile : s.Holds path text) (hwords : Asm.readProgram path text = .ok words) :
    Simulate.readProgram path s = .ok words s := by
  have hbytes : readBytes (Files.Path.ofText path) s = .ok (Utf8.encode text) s := by
    show ofExcept _ (s.tree.read s.directory (Files.Path.ofText path)) s = _
    rw [hfile]
    rfl
  rw [Simulate.readProgram]
  simp only [bind, EStateM.bind, hbytes, Utf8.decode_encode]
  change ofExcept _ (Asm.readProgram path text) s = _
  rw [hwords]
  rfl

/-- Whatever is compiled and assembled, both of its files are read as the same words.  The lines of
the code stay as they are on the way through the file; code without lines becomes an empty line. -/
theorem readProgram_artifacts {files : List SourceFile} {bootstrap comments : Bool}
    {text : List String} {words : Array Int} (hpaths : PathsAreProper files)
    (hcompile : VM.compile files bootstrap comments = .ok text)
    (hassemble : Asm.assemble text = .ok words) :
    (splitLines (unifyNewlines (unlines text).toList)).map String.ofList =
        (if text = [] then [""] else text) ∧
      ∀ (s : Session) (path : String),
        (path.endsWith ".asm" = true → s.Holds path (unlines text) →
          Simulate.readProgram path s = .ok words s) ∧
        (path.endsWith ".asm" = false → s.Holds path (binaryImage words.toList) →
          Simulate.readProgram path s = .ok words s) := by
  have hlines := isUnbroken_text hpaths hcompile hassemble
  refine ⟨lines_unlines hlines, fun s path => ⟨fun hpath hfile => ?_, fun hpath hfile => ?_⟩⟩
  · exact Simulate.readProgram_eq hfile ((readProgram_unlines hpath hlines).trans hassemble)
  · exact Simulate.readProgram_eq hfile (readProgram_binaryImage hpath (assemble_bounds hassemble))

/-- A unit with a static variable and a comparison. -/
def comparisonUnit : SourceFile where
  path := Files.Path.ofText "A.vm"
  bytes := "push static 0 // the level\n  push constant 1\ngt\n".toUTF8

/-- A directory with both files of a program. -/
def withArtifacts (text : List String) (words : Array Int) : Session where
  tree := ⟨[(["A.asm"], .file (Utf8.encode (unlines text))),
    (["A.hack"], .file (Utf8.encode (binaryImage words.toList)))]⟩
  directory := []

theorem readProgram_artifacts_comparisonUnit :
    ∃ text words, VM.compile [comparisonUnit] false true = .ok text ∧
      Asm.assemble text = .ok words ∧
      Simulate.readProgram "A.asm" (withArtifacts text words) =
        .ok words (withArtifacts text words) ∧
      Simulate.readProgram "A.hack" (withArtifacts text words) =
        .ok words (withArtifacts text words) := by
  obtain ⟨text, words, hcompile, hassemble⟩ := exists_words [comparisonUnit] false true
    (by decide +kernel)
  have hpaths : PathsAreProper [comparisonUnit] :=
    pathsAreProper_of_text fun file hfile => ⟨"A.vm", List.mem_singleton.1 hfile ▸ rfl⟩
  -- both names lead from the directory to the files
  have hlocate (tree : Files.Tree) {name : String} (hname : name ∈ ["A.asm", "A.hack"]) :
      tree.locate [] (Files.Path.ofText name) = .ok [name] := by
    have hpath : ∀ name ∈ ["A.asm", "A.hack"], Files.Path.ofText name = ⟨"", [name]⟩ ∧
        Files.Tree.textFault? ⟨"", [name]⟩ = none := by
      decide +kernel
    obtain ⟨hparts, htext⟩ := hpath name hname
    rw [hparts, Files.Tree.locate, htext]
    simp only [List.mem_cons, List.not_mem_nil, or_false] at hname
    rcases hname with rfl | rfl <;> rfl
  have hcode : (withArtifacts text words).Holds "A.asm" (unlines text) := by
    change Files.Tree.read _ [] _ = _
    rw [Files.Tree.read, hlocate _ (by decide)]
    rfl
  have himage : (withArtifacts text words).Holds "A.hack" (binaryImage words.toList) := by
    change Files.Tree.read _ [] _ = _
    rw [Files.Tree.read, hlocate _ (by decide)]
    rfl
  obtain ⟨-, hfiles⟩ := readProgram_artifacts hpaths hcompile hassemble
  exact ⟨text, words, hcompile, hassemble, (hfiles _ "A.asm").1 (by decide +kernel) hcode,
    (hfiles _ "A.hack").2 (by decide +kernel) himage⟩

end HackToolchain.Cli
