import HackToolchain.Proofs.Files.Keeps

/-!
# The source files of a place

The path of a place is that of a program if it leads to a directory with source files, or if its
name is that of a source file.  Then all source files of the program are named by it.

* `sources_eq_ok`: the two kinds of programs;
* `sources_of_directory`, `sources_of_file`: when a place is one of them.
-/

namespace HackToolchain.Files.Tree

variable {tree tree' : Tree} {directory location : Location} {found : Sources}

/-- The program of a place that is a directory. -/
def directorySources (tree : Tree) (location : Location) : Sources where
  files := (tree.sourceNames location).map fun name => .absolute (location ++ [name])
  output := (Path.absolute location).child ((Path.absolute location).name ++ codeSuffix)
  isDirectory := true

/-- The program of a place that is no directory. -/
def fileSources (location : Location) : Sources where
  files := [.absolute location]
  output := (Path.absolute location).withSuffix codeSuffix
  isDirectory := false

theorem isDirectory_absolute (h : ∀ name ∈ location, IsName name) :
    tree.isDirectory directory (.absolute location) = .ok true ↔
      IsUsable (.absolute location) ∧ tree.Admits location ∧
        tree.lookup location = some .directory := by
  have hnode : tree.node? directory (.absolute location) = .ok (some .directory) ↔ _ :=
    node?_absolute_eq_some h
  rw [← hnode, isDirectory]
  cases tree.node? directory (.absolute location) with
  | error fault =>
    constructor
    · intro heq
      cases heq
    · intro heq
      cases heq
  | ok node =>
    cases node with
    | none => simp [Except.map]
    | some node => cases node <;> simp [Except.map]

/-- A place with source files in it. -/
theorem sources_of_directory (h : ∀ name ∈ location, IsName name)
    (husable : IsUsable (.absolute location)) (hadmits : tree.Admits location)
    (hnode : tree.lookup location = some .directory) (hne : tree.sourceNames location ≠ []) :
    tree.sources directory (.absolute location) = .ok (tree.directorySources location) := by
  unfold sources
  rw [(isDirectory_absolute h).2 ⟨husable, hadmits, hnode⟩,
    (locate_absolute h).2 ⟨rfl, husable, hadmits⟩]
  dsimp only
  split
  · contradiction
  · rfl

/-- A source file. -/
theorem sources_of_file (h : ∀ name ∈ location, IsName name) {content : ByteArray}
    (hfile : tree.HasFile location content)
    (hsuffix : (Path.absolute location).suffix = sourceSuffix) :
    tree.sources directory (.absolute location) = .ok (fileSources location) := by
  have hnode : tree.node? directory (.absolute location) = .ok (some (.file content)) :=
    (node?_absolute_eq_some h).2 ⟨hfile.isUsable, hfile.admits, hfile.lookup_eq⟩
  unfold sources isDirectory
  rw [hnode]
  dsimp only [Except.map]
  rw [if_pos hsuffix]
  rfl

/-- A program is a directory with source files in it, or it has the name of a source file. -/
theorem sources_eq_ok (h : ∀ name ∈ location, IsName name)
    (hfound : tree.sources directory (.absolute location) = .ok found) :
    (IsUsable (.absolute location) ∧ tree.Admits location ∧
      tree.lookup location = some .directory ∧ tree.sourceNames location ≠ [] ∧
      found = tree.directorySources location) ∨
    ((Path.absolute location).suffix = sourceSuffix ∧ found = fileSources location) := by
  by_cases hdirectory : tree.isDirectory directory (.absolute location) = .ok true
  · obtain ⟨husable, hadmits, hnode⟩ := (isDirectory_absolute h).1 hdirectory
    -- a directory without sources is refused
    have hne : tree.sourceNames location ≠ [] := by
      intro hnil
      unfold sources at hfound
      rw [hdirectory, (locate_absolute h).2 ⟨rfl, husable, hadmits⟩] at hfound
      dsimp only at hfound
      rw [hnil] at hfound
      cases hfound
    rw [sources_of_directory h husable hadmits hnode hne] at hfound
    injection hfound with hfound
    exact .inl ⟨husable, hadmits, hnode, hne, hfound.symm⟩
  · -- all else is a single file, if its suffix is the right one
    right
    unfold sources at hfound
    split at hfound
    · cases hfound
    · contradiction
    · split at hfound
      · rename_i hsuffix
        injection hfound with hfound
        exact ⟨hsuffix, hfound.symm⟩
      · cases hfound

end HackToolchain.Files.Tree
