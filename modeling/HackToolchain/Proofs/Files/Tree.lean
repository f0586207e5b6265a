import HackToolchain.Files.Sources
import HackToolchain.Proofs.Files.Path

/-!
# Changing trees

What is left of a tree when a file has been written.

* `write_eq_ok`: a file goes to a place that is no directory, and to no other place;
* `SameDirectories.follow`: where a path leads only depends on the directories;
* `locate_absolute`, `read_absolute`, `write_absolute`: places are found under their paths, if all
  places on the way to them are directories.
-/

namespace HackToolchain.Files.Tree

variable {tree tree' : Tree} {directory location : Location} {path : Path}

/-! ### Following paths -/

/-- Trees with the same directories. -/
def SameDirectories (tree tree' : Tree) : Prop :=
  ∀ location, tree.lookup location = some .directory ↔ tree'.lookup location = some .directory

theorem SameDirectories.symm (h : SameDirectories tree tree') : SameDirectories tree' tree :=
  fun location => (h location).symm

/-- A path with another part can be followed if its start is a directory. -/
theorem follow_cons_eq_ok_iff {here : Location} {part : String} {parts : List String} :
    tree.follow here (part :: parts) = .ok location ↔
      tree.lookup here = some .directory ∧ part.utf8ByteSize ≤ maxNameBytes ∧
        tree.follow (enter here part) parts = .ok location := by
  rw [follow]
  cases tree.lookup here with
  | none => simp
  | some node =>
    cases node with
    | file content => simp
    | directory =>
      dsimp only
      split
      · rename_i hlong
        simp [Nat.not_le.2 hlong]
      · rename_i hshort
        simp [Nat.not_lt.1 hshort]

theorem follow_ne_nameTooLong {here : Location} {parts : List String}
    (hshort : ∀ part ∈ parts, part.utf8ByteSize ≤ maxNameBytes) :
    tree.follow here parts ≠ .error .nameTooLong := by
  induction parts generalizing here with
  | nil => exact nofun
  | cons part parts ih =>
    obtain ⟨hpart, hparts⟩ := List.forall_mem_cons.1 hshort
    rw [follow]
    split
    · exact nofun
    · exact nofun
    · rw [if_neg (Nat.not_lt.2 hpart)]
      exact ih hparts

/-- Where a path leads only depends on the directories. -/
theorem SameDirectories.follow (h : SameDirectories tree tree') {here : Location}
    {parts : List String} (hfollow : tree.follow here parts = .ok location) :
    tree'.follow here parts = .ok location := by
  induction parts generalizing here with
  | nil => exact hfollow
  | cons part parts ih =>
    rw [follow_cons_eq_ok_iff] at hfollow ⊢
    exact ⟨(h here).1 hfollow.1, hfollow.2.1, ih hfollow.2.2⟩

theorem textFault?_eq_none : textFault? path = none ↔
    hasNul path.text = false ∧ path.text.utf8ByteSize < pathBytes := by
  unfold textFault?
  split
  · rename_i hnul
    simp [hnul]
  · rename_i hnul
    split
    · rename_i hlong
      simp [Nat.not_lt.2 hlong]
    · rename_i hlong
      simp [hnul, Nat.not_le.1 hlong]

theorem locate_eq_ok_iff : tree.locate directory path = .ok location ↔
    textFault? path = none ∧ tree.follow (origin directory path) path.parts = .ok location := by
  unfold locate
  cases textFault? path <;> simp

theorem SameDirectories.locate (h : SameDirectories tree tree')
    (hlocate : tree.locate directory path = .ok location) :
    tree'.locate directory path = .ok location := by
  rw [locate_eq_ok_iff] at hlocate ⊢
  exact ⟨hlocate.1, h.follow hlocate.2⟩

/-! ### Writing files -/

theorem locateTarget_eq_ok (h : tree.locateTarget directory path = .ok location) :
    tree.locate directory path = .ok location := by
  unfold locateTarget at h
  split at h
  · cases h
  · rename_i htext
    split at h
    · -- what ends in a slash is no file
      cases hfollow : tree.follow (origin directory path) (path.parts.dropLast.dropLast ++ ["."])
        with
      | error fault =>
        rw [hfollow] at h
        cases h
      | ok location =>
        rw [hfollow] at h
        cases h
    · exact locate_eq_ok_iff.2 ⟨htext, h⟩

/-- A file is written to the place that its path leads to, unless that is a directory. -/
theorem write_eq_ok {content : ByteArray} (h : tree.write directory path content = .ok tree') :
    ∃ location, tree.locate directory path = .ok location ∧
      tree.lookup location ≠ some .directory ∧ tree' = tree.set location (.file content) := by
  unfold write at h
  cases htarget : tree.locateTarget directory path with
  | error fault =>
    rw [htarget] at h
    cases h
  | ok location =>
    rw [htarget] at h
    refine ⟨location, locateTarget_eq_ok htarget, ?_⟩
    cases hnode : tree.lookup location with
    | none =>
      simp only [bind, Except.bind, hnode] at h
      injection h with h
      exact ⟨by simp, h.symm⟩
    | some node =>
      cases node with
      | directory =>
        simp only [bind, Except.bind, hnode] at h
        cases h
      | file old =>
        simp only [bind, Except.bind, hnode] at h
        injection h with h
        exact ⟨by simp, h.symm⟩

theorem ne_nil_of_lookup_ne (h : tree.lookup location ≠ some .directory) : location ≠ [] := by
  rintro rfl
  exact h rfl

/-- A file in place of something that is no directory leaves the directories as they are. -/
theorem sameDirectories_set (h : tree.lookup location ≠ some .directory) (content : ByteArray) :
    SameDirectories tree (tree.set location (.file content)) := by
  intro other
  by_cases hother : other = location
  · subst hother
    rw [lookup_set_self tree (ne_nil_of_lookup_ne h)]
    simp [h]
  · rw [lookup_set_of_ne tree hother]

/-- What has been written is read back from the same path. -/
theorem read_of_write {content : ByteArray} (h : tree.write directory path content = .ok tree') :
    tree'.read directory path = .ok content := by
  obtain ⟨location, hlocate, hnode, rfl⟩ := write_eq_ok h
  have hlookup := lookup_set_self tree (ne_nil_of_lookup_ne hnode) (.file content)
  rw [read, (sameDirectories_set hnode content).locate hlocate]
  simp only [bind, Except.bind, hlookup]
  rfl

/-! ### Writing several files -/

/-- The tree with some files written, one after the other. -/
def writeAll (tree : Tree) (directory : Location) :
    List (Path × ByteArray) → Except FileFault Tree
  | [] => .ok tree
  | (path, content) :: rest => do
    (← tree.write directory path content).writeAll directory rest

/-- Nothing changes but the places that the paths of the files lead to. -/
theorem lookup_writeAll {files : List (Path × ByteArray)}
    (h : tree.writeAll directory files = .ok tree')
    (hother : ∀ file ∈ files, tree.locate directory file.1 ≠ .ok location) :
    tree'.lookup location = tree.lookup location := by
  induction files generalizing tree with
  | nil =>
    injection h with h
    rw [h]
  | cons file files ih =>
    rw [writeAll] at h
    cases hfile : tree.write directory file.1 file.2 with
    | error fault =>
      rw [hfile] at h
      cases h
    | ok t =>
      rw [hfile] at h
      obtain ⟨target, hlocate, hnode, rfl⟩ := write_eq_ok hfile
      -- a write changes one place, and paths lead where they led before
      have hne : location ≠ target := by
        rintro rfl
        exact hother file List.mem_cons_self hlocate
      rw [ih h fun other hmem hlocate => hother other (List.mem_cons_of_mem file hmem)
        ((sameDirectories_set hnode _).symm.locate hlocate), lookup_set_of_ne tree hne]

/-! ### The places on the way -/

/-- Every place on the way to the location is a directory. -/
def Admits (tree : Tree) (location : Location) : Prop :=
  ∀ front, front <+: location → front ≠ location → tree.lookup front = some .directory

/-- The path has no character that no path can have, and neither it nor a name in it is too
long. -/
structure IsUsable (path : Path) : Prop where
  hasNul_eq : hasNul path.text = false
  size_lt : path.text.utf8ByteSize < pathBytes
  size_le : ∀ part ∈ path.parts, part.utf8ByteSize ≤ maxNameBytes

theorem IsUsable.textFault?_eq (h : IsUsable path) : textFault? path = none :=
  textFault?_eq_none.2 ⟨h.hasNul_eq, h.size_lt⟩

theorem isUsable_concat (hne : location ≠ []) {name : String} :
    IsUsable (.absolute (location ++ [name])) ↔ IsUsable (.absolute location) ∧
      hasNul name = false ∧ name.utf8ByteSize ≤ maxNameBytes ∧
      (Path.absolute location).text.utf8ByteSize + 1 + name.utf8ByteSize < pathBytes := by
  have hslash : "/".utf8ByteSize = 1 := by decide
  have hnul : hasNul (Path.absolute (location ++ [name])).text = false ↔
      hasNul (Path.absolute location).text = false ∧ hasNul name = false := by
    unfold hasNul
    rw [Path.text_absolute_concat hne, String.toList_append, String.toList_append]
    simp
  have hsize : (Path.absolute (location ++ [name])).text.utf8ByteSize =
      (Path.absolute location).text.utf8ByteSize + 1 + name.utf8ByteSize := by
    rw [Path.text_absolute_concat hne, String.utf8ByteSize_append, String.utf8ByteSize_append,
      hslash]
  constructor
  · rintro ⟨htext, hlt, hparts⟩
    obtain ⟨hfront, hname⟩ := List.forall_mem_append.1 hparts
    rw [hsize] at hlt
    exact ⟨⟨(hnul.1 htext).1, by omega, hfront⟩, (hnul.1 htext).2, hname name List.mem_cons_self,
      hlt⟩
  · rintro ⟨⟨htext, -, hparts⟩, hname, hle, hlt⟩
    exact ⟨hnul.2 ⟨htext, hname⟩, hsize ▸ hlt,
      List.forall_mem_append.2 ⟨hparts, List.forall_mem_singleton.2 hle⟩⟩

/-- Names are followed one after the other. -/
theorem follow_of_isName {here : Location} {parts : List String}
    (h : ∀ part ∈ parts, IsName part) :
    tree.follow here parts = .ok location ↔ location = here ++ parts ∧
      (∀ part ∈ parts, part.utf8ByteSize ≤ maxNameBytes) ∧
      ∀ front, front <+: parts → front ≠ parts → tree.lookup (here ++ front) = some .directory := by
  induction parts generalizing here with
  | nil =>
    rw [follow, Except.ok.injEq, List.append_nil, eq_comm]
    constructor
    · intro heq
      refine ⟨heq, fun _ hpart => absurd hpart List.not_mem_nil, fun front hfront hne => ?_⟩
      exact absurd (List.prefix_nil.1 hfront) hne
    · exact And.left
  | cons part parts ih =>
    obtain ⟨hpart, hparts⟩ := List.forall_mem_cons.1 h
    -- a proper name leads one step down
    have henter : enter here part = here ++ [part] := by
      rw [enter, if_neg hpart.ne_parent, if_neg (not_or.2 ⟨hpart.ne_dot, hpart.ne_empty⟩)]
    rw [follow_cons_eq_ok_iff, henter, ih hparts, List.append_assoc, List.singleton_append,
      List.forall_mem_cons]
    constructor
    · rintro ⟨hhere, hshort, rfl, hshorts, hrest⟩
      refine ⟨rfl, ⟨hshort, hshorts⟩, fun front hfront hne => ?_⟩
      cases front with
      | nil => rwa [List.append_nil]
      | cons first front =>
        obtain ⟨rfl, hunder⟩ := List.cons_prefix_cons.1 hfront
        have := hrest front hunder fun heq => hne (by rw [heq])
        rwa [List.append_assoc, List.singleton_append] at this
    · rintro ⟨rfl, ⟨hshort, hshorts⟩, hall⟩
      refine ⟨?_, hshort, rfl, hshorts, fun front hfront hne => ?_⟩
      · have := hall [] List.nil_prefix (List.cons_ne_nil part parts).symm
        rwa [List.append_nil] at this
      · rw [List.append_assoc, List.singleton_append]
        exact hall (part :: front) (List.cons_prefix_cons.2 ⟨rfl, hfront⟩) fun heq =>
          hne (List.cons_eq_cons.1 heq).2

/-- The path of a place leads there if it can be used and the places on the way are directories. -/
theorem locate_absolute (h : ∀ name ∈ location, IsName name) {target : Location} :
    tree.locate directory (.absolute location) = .ok target ↔
      target = location ∧ IsUsable (.absolute location) ∧ tree.Admits location := by
  have hfollow : tree.follow [] location = .ok target ↔ _ := follow_of_isName h
  rw [locate_eq_ok_iff, textFault?_eq_none]
  constructor
  · rintro ⟨⟨hnul, hsize⟩, htarget⟩
    obtain ⟨heq, hshort, hadmits⟩ := hfollow.1 htarget
    exact ⟨heq, ⟨hnul, hsize, hshort⟩, hadmits⟩
  · rintro ⟨heq, ⟨hnul, hsize, hshort⟩, hadmits⟩
    exact ⟨⟨hnul, hsize⟩, hfollow.2 ⟨heq, hshort, hadmits⟩⟩

/-! ### Files at places -/

/-- The path of the place leads to a file with the content. -/
structure HasFile (tree : Tree) (location : Location) (content : ByteArray) : Prop where
  isUsable : IsUsable (.absolute location)
  admits : tree.Admits location
  lookup_eq : tree.lookup location = some (.file content)

theorem read_absolute (h : ∀ name ∈ location, IsName name) {content : ByteArray} :
    tree.read directory (.absolute location) = .ok content ↔ tree.HasFile location content := by
  unfold read
  cases hlocate : tree.locate directory (.absolute location) with
  | error fault =>
    constructor
    · intro hread
      cases hread
    · intro hfile
      rw [(locate_absolute h).2 ⟨rfl, hfile.isUsable, hfile.admits⟩] at hlocate
      cases hlocate
  | ok target =>
    obtain ⟨rfl, husable, hadmits⟩ := (locate_absolute h).1 hlocate
    constructor
    · intro hread
      refine ⟨husable, hadmits, ?_⟩
      cases hnode : tree.lookup target with
      | none =>
        simp only [bind, Except.bind, hnode] at hread
        cases hread
      | some node =>
        cases node with
        | directory =>
          simp only [bind, Except.bind, hnode] at hread
          cases hread
        | file content =>
          simp only [bind, Except.bind, hnode] at hread
          injection hread with hread
          rw [hread]
    · intro hfile
      simp only [bind, Except.bind, hfile.lookup_eq]
      rfl

/-- What the path of a place leads to. -/
theorem node?_absolute_eq_some (h : ∀ name ∈ location, IsName name) {node : Node} :
    tree.node? directory (.absolute location) = .ok (some node) ↔
      IsUsable (.absolute location) ∧ tree.Admits location ∧ tree.lookup location = some node := by
  unfold node?
  cases hlocate : tree.locate directory (.absolute location) with
  | error fault =>
    constructor
    · intro hnode
      cases fault <;> cases hnode
    · rintro ⟨husable, hadmits, -⟩
      rw [(locate_absolute h).2 ⟨rfl, husable, hadmits⟩] at hlocate
      cases hlocate
  | ok target =>
    obtain ⟨rfl, husable, hadmits⟩ := (locate_absolute h).1 hlocate
    simp [husable, hadmits]

/-- The path of a place with nothing there leads to nothing. -/
theorem node?_absolute_eq_none (h : ∀ name ∈ location, IsName name)
    (husable : IsUsable (.absolute location)) (hnone : tree.lookup location = none) :
    tree.node? directory (.absolute location) = .ok none := by
  unfold node?
  cases hlocate : tree.locate directory (.absolute location) with
  | error fault =>
    cases fault with
    | nameTooLong =>
      rw [locate, husable.textFault?_eq] at hlocate
      exact absurd hlocate (follow_ne_nameTooLong husable.size_le)
    | _ => rfl
  | ok target =>
    obtain ⟨rfl, -, -⟩ := (locate_absolute h).1 hlocate
    dsimp only
    rw [hnone]

/-- A file is written to the place that its path names. -/
theorem write_absolute_eq_ok (h : ∀ name ∈ location, IsName name) {content : ByteArray}
    (hwrite : tree.write directory (.absolute location) content = .ok tree') :
    IsUsable (.absolute location) ∧ tree.Admits location ∧
      tree.lookup location ≠ some .directory ∧ tree' = tree.set location (.file content) := by
  obtain ⟨target, hlocate, hnode, htree⟩ := write_eq_ok hwrite
  obtain ⟨rfl, husable, hadmits⟩ := (locate_absolute h).1 hlocate
  exact ⟨husable, hadmits, hnode, htree⟩

/-- A file can be written to a place that is no directory, if the places on the way are. -/
theorem write_absolute (h : ∀ name ∈ location, IsName name) (content : ByteArray)
    (husable : IsUsable (.absolute location)) (hadmits : tree.Admits location)
    (hnode : tree.lookup location ≠ some .directory) :
    tree.write directory (.absolute location) content =
      .ok (tree.set location (.file content)) := by
  have hlocate : tree.locate directory (.absolute location) = .ok location :=
    (locate_absolute h).2 ⟨rfl, husable, hadmits⟩
  have htarget : tree.locateTarget directory (.absolute location) = .ok location := by
    -- such a path does not end in a slash
    have hlast : (Path.absolute location).parts.getLast? ≠ some "" :=
      fun hlast => (h "" (List.mem_of_getLast? hlast)).ne_empty rfl
    rw [locateTarget, husable.textFault?_eq]
    exact (if_neg hlast).trans (locate_eq_ok_iff.1 hlocate).2
  unfold write
  rw [htarget]
  simp only [bind, Except.bind]
  cases hlookup : tree.lookup location with
  | none => rfl
  | some node =>
    cases node with
    | directory => exact absurd hlookup hnode
    | file old => rfl

/-! ### Directories at places -/

theorem ensureDirectories_go_append {reported : Location} {places : List Location}
    (rest : List Location) (h : ∀ place ∈ places, tree.lookup place = some .directory) :
    ensureDirectories.go reported tree (places ++ rest) =
      ensureDirectories.go reported tree rest := by
  induction places with
  | nil => rfl
  | cons place places ih =>
    obtain ⟨hplace, hplaces⟩ := List.forall_mem_cons.1 h
    rw [List.cons_append, ensureDirectories.go, hplace]
    exact ih hplaces

/-- A directory can be made in another one, if there is no file of its name. -/
theorem ensureDirectories_concat {name : String} (hadmits : tree.Admits (location ++ [name]))
    (hnode : ∀ content, tree.lookup (location ++ [name]) ≠ some (.file content))
    (husable : IsUsable (.absolute (location ++ [name]))) :
    ∃ tree', tree.ensureDirectories (location ++ [name]) = .ok tree' ∧
      (tree.lookup (location ++ [name]) = some .directory ∧ tree' = tree ∨
        tree.lookup (location ++ [name]) = none ∧
          tree' = tree.set (location ++ [name]) .directory) := by
  have hplaces : (List.range (location ++ [name]).length).map
      (fun n => (location ++ [name]).take (n + 1)) =
        (List.range location.length).map (fun n => (location ++ [name]).take (n + 1)) ++
          [location ++ [name]] := by
    rw [List.length_append, List.length_singleton, List.range_succ, List.map_append,
      List.map_singleton, List.take_of_length_le (by simp)]
  -- the directories on the way are there, so that only the last one may be new
  have hfront : ∀ place ∈ (List.range location.length).map
      (fun n => (location ++ [name]).take (n + 1)), tree.lookup place = some .directory := by
    intro place hplace
    obtain ⟨n, hn, rfl⟩ := List.mem_map.1 hplace
    have hn := List.mem_range.1 hn
    apply hadmits _ (List.take_prefix _ _)
    intro heq
    have hlength := congrArg List.length heq
    simp only [List.length_take, List.length_append, List.length_singleton] at hlength
    omega
  unfold ensureDirectories
  rw [if_neg (Nat.not_le.2 husable.size_lt), hplaces, ensureDirectories_go_append _ hfront,
    ensureDirectories.go]
  cases hlookup : tree.lookup (location ++ [name]) with
  | none =>
    have hshort : name.utf8ByteSize ≤ maxNameBytes :=
      husable.size_le name (List.mem_append_right _ List.mem_cons_self)
    dsimp only
    rw [List.getLast?_concat, Option.getD_some, if_neg (Nat.not_lt.2 hshort)]
    exact ⟨_, rfl, .inr ⟨rfl, rfl⟩⟩
  | some node =>
    cases node with
    | file content => exact absurd hlookup (hnode content)
    | directory => exact ⟨tree, rfl, .inl ⟨rfl, rfl⟩⟩

end HackToolchain.Files.Tree
