import HackToolchain.Cli.Golden
import HackToolchain.Proofs.Cli.Artifacts
import HackToolchain.Proofs.Cli.Session
import HackToolchain.Proofs.Cli.TextFiles
import HackToolchain.Proofs.Files.Sources

/-!
# Building an example

An example is built from the source files that its path leads to, and from nothing else.

* `build_of_keeps`: where the source files are kept an example is built as before;
* `return_notMem_code`: the code of an example has no carriage returns.
-/

namespace HackToolchain.Cli

open Files Text Session

variable {s s' t : Session} {location : Location} {free made : Location → Prop}

/-- The units that are read from files. -/
theorem Session.readUnits_eq_ok_iff {files : List Files.Path} {units : List VM.SourceFile} :
    (files.mapM fun path => return ⟨path, ← readBytes path⟩ : Action _) s = .ok units s' ↔
      s' = s ∧ units.map (·.path) = files ∧
        ∀ unit ∈ units, s.tree.read s.directory unit.path = .ok unit.bytes := by
  induction files generalizing units s' with
  | nil =>
    rw [List.mapM_nil, pure_eq_ok_iff, List.map_eq_nil_iff, and_comm]
    refine and_congr_right fun _ => ⟨?_, And.left⟩
    rintro rfl
    exact ⟨rfl, fun unit hunit => absurd hunit List.not_mem_nil⟩
  | cons path files ih =>
    rw [List.mapM_cons]
    constructor
    · -- reading leaves the session as it is, so that all files are read in the same one
      intro h
      obtain ⟨unit, t, hunit, hrest⟩ := bind_eq_ok_iff.1 h
      obtain ⟨bytes, t', hread, hpure⟩ := bind_eq_ok_iff.1 hunit
      obtain ⟨hbytes, rfl⟩ := readBytesAs_eq_ok_iff.1 hread
      obtain ⟨rfl, rfl⟩ := pure_eq_ok_iff.1 hpure
      obtain ⟨rest, t', hfiles, hcons⟩ := bind_eq_ok_iff.1 hrest
      obtain ⟨rfl, hpaths, hall⟩ := ih.1 hfiles
      obtain ⟨rfl, rfl⟩ := pure_eq_ok_iff.1 hcons
      exact ⟨rfl, by rw [List.map_cons, hpaths], List.forall_mem_cons.2 ⟨hbytes, hall⟩⟩
    · rintro ⟨rfl, hpaths, hall⟩
      cases units with
      | nil => cases hpaths
      | cons unit units =>
        injection hpaths with hpath hpaths
        obtain ⟨hbytes, hrest⟩ := List.forall_mem_cons.1 hall
        subst hpath
        exact bind_eq_ok_iff.2 ⟨unit, s', bind_eq_ok_iff.2 ⟨unit.bytes, s',
          readBytesAs_eq_ok_iff.2 ⟨hbytes, rfl⟩, rfl⟩,
          bind_eq_ok_iff.2 ⟨units, s', ih.2 ⟨rfl, hpaths, hrest⟩, rfl⟩⟩

/-- The units of a program that has been compiled are the contents of its files. -/
theorem Session.compile_eq_ok_iff {files : List Files.Path} {bootstrap comments : Bool}
    {code : List String} :
    compile files bootstrap comments s = .ok code s' ↔
      s' = s ∧ ∃ units : List VM.SourceFile, units.map (·.path) = files ∧
        (∀ unit ∈ units, s.tree.read s.directory unit.path = .ok unit.bytes) ∧
        VM.compile units bootstrap comments = .ok code := by
  rw [compile, bind_eq_ok_iff]
  constructor
  · rintro ⟨units, t, hmap, hcompile⟩
    obtain ⟨rfl, hpaths, hall⟩ := readUnits_eq_ok_iff.1 hmap
    obtain ⟨hcode, rfl⟩ := ofExcept_eq_ok_iff.1 hcompile
    exact ⟨rfl, units, hpaths, hall, hcode⟩
  · rintro ⟨rfl, units, hpaths, hall, hcode⟩
    exact ⟨units, s', readUnits_eq_ok_iff.2 ⟨rfl, hpaths, hall⟩,
      ofExcept_eq_ok_iff.2 ⟨hcode, rfl⟩⟩

namespace Golden

variable {source : Files.Path} {code listing : String}

/-- The steps of building an example. -/
theorem build_eq_ok_iff :
    build source s = .ok (code, listing) s' ↔
      s' = s ∧ ∃ found units lines words, s.tree.sources s.directory source = .ok found ∧
        units.map (fun unit : VM.SourceFile => unit.path) = found.files ∧
        (∀ unit ∈ units, s.tree.read s.directory unit.path = .ok unit.bytes) ∧
        VM.compile units found.isDirectory false = .ok lines ∧
        Asm.assemble lines = .ok words ∧ code = unlines lines ∧
        listing = Asm.listing words.toList := by
  constructor
  · intro h
    obtain ⟨found, t, hsources, hcompiled⟩ := bind_eq_ok_iff.1 h
    obtain ⟨hfound, rfl⟩ := ofExcept_eq_ok_iff.1 hsources
    obtain ⟨lines, t, hcompile, hassembled⟩ := bind_eq_ok_iff.1 hcompiled
    obtain ⟨rfl, units, hpaths, hall, hlines⟩ := compile_eq_ok_iff.1 hcompile
    obtain ⟨words, t, hassemble, hpure⟩ := bind_eq_ok_iff.1 hassembled
    obtain ⟨array, u, hread, hwords⟩ := bind_eq_ok_iff.1 hassemble
    obtain ⟨harray, rfl⟩ := ofExcept_eq_ok_iff.1 hread
    obtain ⟨rfl, rfl⟩ := pure_eq_ok_iff.1 hwords
    obtain ⟨hcode, rfl⟩ := pure_eq_ok_iff.1 hpure
    injection hcode with hcode hlisting
    exact ⟨rfl, found, units, lines, array, hfound, hpaths, hall, hlines, harray, hcode, hlisting⟩
  · rintro ⟨rfl, found, units, lines, words, hfound, hpaths, hall, hlines, hwords, rfl, rfl⟩
    refine bind_eq_ok_iff.2 ⟨found, s', ofExcept_eq_ok_iff.2 ⟨hfound, rfl⟩, ?_⟩
    refine bind_eq_ok_iff.2 ⟨lines, s', ?_, bind_eq_ok_iff.2 ⟨words.toList, s', ?_, rfl⟩⟩
    · exact compile_eq_ok_iff.2 ⟨rfl, units, hpaths, hall, hlines⟩
    · exact bind_eq_ok_iff.2 ⟨words, s', ofExcept_eq_ok_iff.2 ⟨hwords, rfl⟩, rfl⟩

/-- All source files of the directory have proper names. -/
def NamesAreProper (tree : Tree) (location : Location) : Prop :=
  ∀ name ∈ tree.sourceNames location, IsName name

theorem isName_of_mem_files {found : Sources} (hlocation : ∀ name ∈ location, IsName name)
    (hnames : NamesAreProper s.tree location)
    (hfound : s.tree.sources s.directory (.absolute location) = .ok found) :
    ∀ path ∈ found.files, ∃ place, path = .absolute place ∧ ∀ name ∈ place, IsName name := by
  intro path hpath
  rcases Tree.sources_eq_ok hlocation hfound with ⟨-, -, -, -, rfl⟩ | ⟨-, rfl⟩
  · obtain ⟨name, hname, rfl⟩ := List.mem_map.1 hpath
    refine ⟨_, rfl, fun part hpart => ?_⟩
    rcases List.mem_append.1 hpart with hpart | hpart
    · exact hlocation part hpart
    · rw [List.mem_singleton.1 hpart]
      exact hnames name hname
  · exact ⟨location, List.mem_singleton.1 hpath, hlocation⟩

/-- The code of an example has no carriage returns. -/
theorem return_notMem_code (hlocation : ∀ name ∈ location, IsName name)
    (hnames : NamesAreProper s.tree location)
    (h : build (.absolute location) s = .ok (code, listing) s') : '\r' ∉ code.toList := by
  obtain ⟨-, found, units, lines, words, hfound, hpaths, -, hcompile, hassemble, rfl, -⟩ :=
    build_eq_ok_iff.1 h
  refine return_notMem_unlines (VM.isUnbroken_text (fun unit hunit => ?_) hcompile hassemble)
  have hpath : unit.path ∈ found.files := hpaths ▸ List.mem_map_of_mem hunit
  obtain ⟨place, hplace, hnames⟩ := isName_of_mem_files hlocation hnames hfound unit.path hpath
  apply Path.slash_notMem_stem_of_name
  rw [hplace]
  show '/' ∉ (place.getLast?.getD "").toList
  cases hlast : place.getLast? with
  | none => exact List.not_mem_nil
  | some name => exact (hnames name (List.mem_of_getLast? hlast)).no_slash

/-- The source files of an example are found and read as before where they are kept. -/
theorem sources_of_keeps (hkeeps : Tree.Keeps free made s.tree t.tree)
    (hlocation : ∀ name ∈ location, IsName name) (hnames : NamesAreProper s.tree location)
    (hfree : ∀ front, front <+: location → ¬ free front)
    (hfree' : ∀ name, ¬ free (location ++ [name])) {found : Sources}
    (hfound : s.tree.sources s.directory (.absolute location) = .ok found)
    (hread : ∀ path ∈ found.files, ∃ bytes, s.tree.read s.directory path = .ok bytes) :
    t.tree.sources t.directory (.absolute location) = .ok found ∧
      ∀ path ∈ found.files, ∀ bytes, s.tree.read s.directory path = .ok bytes →
        t.tree.read t.directory path = .ok bytes := by
  -- a file outside the places that may change is read as before
  have hkept {place : Location} (hplace : ∀ name ∈ place, IsName name)
      (hfree : ∀ front, front <+: place → ¬ free front) (bytes : ByteArray)
      (hbytes : s.tree.read s.directory (.absolute place) = .ok bytes) :
      t.tree.read t.directory (.absolute place) = .ok bytes :=
    (Tree.read_absolute hplace).2 (hkeeps.hasFile hfree ((Tree.read_absolute hplace).1 hbytes))
  rcases Tree.sources_eq_ok hlocation hfound with
    ⟨husable, hadmits, hnode, hne, rfl⟩ | ⟨hsuffix, rfl⟩
  · -- the names in the directory decide what is read, and they are the same
    have hsame := hkeeps.sourceNames_eq location fun name _ => hfree' name
    constructor
    · rw [Tree.sources_of_directory hlocation husable
        (hkeeps.admits (fun front hfront _ => hfree front hfront) hadmits)
        (hkeeps.lookup_some (hfree location (List.prefix_refl location)) hnode) (hsame ▸ hne),
        Tree.directorySources, Tree.directorySources, hsame]
    · intro path hpath
      obtain ⟨name, hname, rfl⟩ := List.mem_map.1 hpath
      apply hkept
      · exact List.forall_mem_append.2 ⟨hlocation, List.forall_mem_singleton.2 (hnames name hname)⟩
      · intro front hfront
        rcases List.prefix_concat_iff.1 hfront with rfl | hfront
        · exact hfree' name
        · exact hfree front hfront
  · obtain ⟨bytes, hbytes⟩ := hread _ (List.mem_singleton_self _)
    have hfile := hkeeps.hasFile hfree ((Tree.read_absolute hlocation).1 hbytes)
    refine ⟨Tree.sources_of_file hlocation hfile hsuffix, fun path hpath => ?_⟩
    rw [List.mem_singleton.1 hpath]
    exact hkept hlocation hfree

/-- Where its source files are kept an example is built as before. -/
theorem build_of_keeps (hkeeps : Tree.Keeps free made s.tree t.tree)
    (hlocation : ∀ name ∈ location, IsName name) (hnames : NamesAreProper s.tree location)
    (hfree : ∀ front, front <+: location → ¬ free front)
    (hfree' : ∀ name, ¬ free (location ++ [name]))
    (h : build (.absolute location) s = .ok (code, listing) s') :
    build (.absolute location) t = .ok (code, listing) t := by
  obtain ⟨rfl, found, units, lines, words, hfound, hpaths, hall, hrest⟩ := build_eq_ok_iff.1 h
  have hfiles : ∀ path ∈ found.files, ∃ bytes, s'.tree.read s'.directory path = .ok bytes := by
    intro path hpath
    rw [← hpaths] at hpath
    obtain ⟨unit, hunit, rfl⟩ := List.mem_map.1 hpath
    exact ⟨unit.bytes, hall unit hunit⟩
  obtain ⟨hfound', hread⟩ :=
    sources_of_keeps hkeeps hlocation hnames hfree hfree' hfound hfiles
  refine build_eq_ok_iff.2 ⟨rfl, found, units, lines, words, hfound', hpaths, ?_, hrest⟩
  intro unit hunit
  exact hread _ (hpaths ▸ List.mem_map_of_mem hunit) _ (hall unit hunit)

end Golden

end HackToolchain.Cli
