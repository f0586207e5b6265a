import HackToolchain.Cli.Golden
import HackToolchain.Proofs.Cli.Session
import HackToolchain.Proofs.Files.Keeps

/-!
# What is changed around a record

The record of an example is a directory, and only a few names in it are ever written.  The
directory of the record may be anywhere, also among the examples, and the examples may even be below
it.  Still the examples are left alone: what is on the way to them are directories, which are never
written, and no example has a name that is written.

* `Touches`: the places that are changed;
* `not_touches_of_home`, `not_touches_of_other`: the examples and the other records are not among
  them;
* `Changes`: a change of a session that touches some names of a record.
-/

namespace HackToolchain.Cli.Golden

open Files Text Session

variable {home place location directory : Location} {names names' : List String} {s s' t : Session}
variable {name text : String}

/-! ### Places -/

/-- The places that are touched when some names in a directory are written: the places with these
names and all below them, apart from those on the way to the examples. -/
def Touches (home place : Location) (names : List String) (location : Location) : Prop :=
  ∃ name ∈ names, place ++ [name] <+: location ∧ ¬ place ++ [name] <+: home

theorem Touches.mono (h : Touches home place names location) (hsubset : names ⊆ names') :
    Touches home place names' location := by
  obtain ⟨name, hname, hunder, hhome⟩ := h
  exact ⟨name, hsubset hname, hunder, hhome⟩

theorem not_touches_home (h : location <+: home) : ¬ Touches home place names location := by
  rintro ⟨name, -, hunder, hhome⟩
  exact hhome (hunder.trans h)

/-- An example is not touched, nor is a source file of it. -/
theorem not_touches_of_home {record : Location} {child : String} {tail : List String}
    (hname : name ∉ child :: names) (htail : tail.length ≤ 1)
    (h : location <+: home ++ name :: tail) :
    ¬ Touches home (record ++ [child]) names location := by
  rintro ⟨written, hwritten, hunder, hhome⟩
  have hunder := hunder.trans h
  rcases List.prefix_or_prefix_of_prefix hunder (List.prefix_append home (name :: tail)) with
    hbelow | ⟨rest, hrest⟩
  · exact hhome hbelow
  · obtain ⟨hchild, hnames⟩ := List.ne_and_not_mem_of_not_mem_cons hname
    rw [← hrest] at hunder hhome
    have hunder := (List.prefix_append_right_inj home).1 hunder
    -- what is left of the written place is the name, perhaps with one more behind it
    cases rest with
    | nil =>
      rw [List.append_nil] at hhome
      exact hhome (List.prefix_refl home)
    | cons first rest =>
      obtain ⟨rfl, hunder⟩ := List.cons_prefix_cons.1 hunder
      have hlength := hunder.length_le
      match rest, hlength with
      | [], _ =>
        obtain ⟨-, heq⟩ := List.append_inj' hrest rfl
        injection heq with heq
        exact hnames (heq ▸ hwritten)
      | [second], _ =>
        rw [List.append_assoc] at hrest
        obtain ⟨-, heq⟩ := List.append_inj' hrest rfl
        injection heq with heq
        exact hchild heq
      | _ :: _ :: _, hlength =>
        simp only [List.length_cons] at hlength
        omega

/-- The record of another example is not touched. -/
theorem not_touches_of_other {record : Location} {child other : String} {tail : List String}
    (hne : other ≠ child) (h : location <+: record ++ other :: tail) :
    ¬ Touches home (record ++ [child]) names location := by
  rintro ⟨written, -, hunder, -⟩
  have hunder := hunder.trans h
  rw [List.append_assoc] at hunder
  have hunder := (List.prefix_append_right_inj record).1 hunder
  exact hne (List.cons_prefix_cons.1 hunder).1.symm

/-- The other names in a record are not touched. -/
theorem not_touches_of_name {tail : List String} (hname : name ∉ names)
    (h : location <+: place ++ name :: tail) : ¬ Touches home place names location := by
  rintro ⟨written, hwritten, hunder, -⟩
  have hunder := (List.prefix_append_right_inj place).1 (hunder.trans h)
  exact hname ((List.cons_prefix_cons.1 hunder).1 ▸ hwritten)

/-! ### Changes -/

/-- A change of a session that touches some names of a record, and perhaps makes its directory. -/
structure Changes (home place : Location) (names : List String) (s s' : Session) : Prop where
  directory_eq : s'.directory = s.directory
  keeps : Tree.Keeps (Touches home place names) (· <+: place) s.tree s'.tree

theorem Changes.refl (s : Session) : Changes home place names s s :=
  ⟨rfl, Tree.Keeps.refl s.tree⟩

theorem Changes.trans (h : Changes home place names s t) (h' : Changes home place names t s') :
    Changes home place names s s' :=
  ⟨h'.directory_eq.trans h.directory_eq, h.keeps.trans h'.keeps⟩

theorem Changes.mono (h : Changes home place names s s') (hsubset : names ⊆ names') :
    Changes home place names' s s' :=
  ⟨h.directory_eq, h.keeps.mono (fun _ htouches => htouches.mono hsubset) fun _ => id⟩

/-- The other files of a record are kept. -/
theorem Changes.hasFile (h : Changes home place names s s') (hname : name ∉ names)
    {content : ByteArray} (hfile : s.tree.HasFile (place ++ [name]) content) :
    s'.tree.HasFile (place ++ [name]) content :=
  h.keeps.hasFile (fun _ hfront => not_touches_of_name hname hfront) hfile

/-- Every place on the way to the examples is a directory. -/
def IsOpen (tree : Tree) (home : Location) : Prop :=
  ∀ front, front <+: home → tree.lookup front = some .directory

theorem isOpen_of_admits {tree : Tree} (h : tree.Admits (home ++ [name])) : IsOpen tree home := by
  intro front hfront
  apply h front (hfront.trans (List.prefix_append home [name]))
  rintro rfl
  have hlength := hfront.length_le
  rw [List.length_append, List.length_singleton] at hlength
  omega

theorem IsOpen.admits {tree : Tree} (h : IsOpen tree home) : tree.Admits (home ++ [name]) := by
  intro front hfront hne
  exact h front ((List.prefix_concat_iff.1 hfront).resolve_left hne)

theorem Changes.isOpen (h : Changes home place names s s') (hopen : IsOpen s.tree home) :
    IsOpen s'.tree home :=
  fun front hfront => h.keeps.lookup_some (not_touches_home hfront) (hopen front hfront)

/-! ### Writing a name -/

/-- A file that is written touches its place, which is no directory. -/
theorem writeTextAs_eq_ok {shown : String} (h : ∀ name ∈ location, IsName name)
    (hwrite : writeTextAs shown (.absolute location) text s = .ok () s') :
    s'.directory = s.directory ∧ s.tree.lookup location ≠ some .directory ∧
      s'.tree.HasFile location (Utf8.encode text) ∧
      ∀ made, Tree.Keeps (location <+: ·) made s.tree s'.tree := by
  obtain ⟨tree, hwritten, rfl⟩ := writeTextAs_eq_ok_iff.1 hwrite
  obtain ⟨husable, hadmits, hnode, rfl⟩ := Tree.write_absolute_eq_ok h hwritten
  refine ⟨rfl, hnode, ⟨husable, ?_, ?_⟩, fun made => Tree.keeps_set (List.prefix_refl location) _⟩
  · intro front hfront hne
    rw [Tree.lookup_set_of_ne s.tree hne]
    exact hadmits front hfront hne
  · exact Tree.lookup_set_self s.tree (Tree.ne_nil_of_lookup_ne hnode) _

/-- A file that is written into a directory, which is made if need be. -/
theorem writeInto_eq_ok (h : ∀ part ∈ place ++ [name], IsName part)
    (hwrite : writeInto (.absolute place) name text s = .ok () s') :
    s'.directory = s.directory ∧ s.tree.lookup (place ++ [name]) ≠ some .directory ∧
      s'.tree.HasFile (place ++ [name]) (Utf8.encode text) ∧
      Tree.Keeps (place ++ [name] <+: ·) (· <+: place) s.tree s'.tree := by
  obtain ⟨_, t, hmake, hfile⟩ : ∃ u t, makeDirectories (.absolute place) s = .ok u t ∧
      writeText (.absolute (place ++ [name])) text t = .ok () s' := bind_eq_ok_iff.1 hwrite
  obtain ⟨tree, hmade, rfl⟩ := makeDirectories_eq_ok_iff.1 hmake
  obtain ⟨hdirectory, hnode, hhas, hkeeps⟩ := writeTextAs_eq_ok h hfile
  have hmakes : Tree.Keeps (fun _ => False) (· <+: place) s.tree tree :=
    Tree.keeps_ensureDirectories (fun _ => id) hmade
  refine ⟨hdirectory, fun hbefore => hnode (hmakes.lookup_some not_false hbefore), hhas, ?_⟩
  exact (hmakes.mono (fun _ => False.elim) fun _ => id).trans (hkeeps _)

/-- What is no directory is not on the way to the examples. -/
theorem changes_of_keeps (hopen : IsOpen s.tree home)
    (hnode : s.tree.lookup (place ++ [name]) ≠ some .directory)
    (hdirectory : s'.directory = s.directory)
    (hkeeps : Tree.Keeps (place ++ [name] <+: ·) (· <+: place) s.tree s'.tree) :
    Changes home place [name] s s' := by
  refine ⟨hdirectory, hkeeps.mono (fun location hunder => ?_) fun _ => id⟩
  exact ⟨name, List.mem_singleton_self name, hunder, fun hhome => hnode (hopen _ hhome)⟩

theorem changes_of_writeInto (h : ∀ part ∈ place ++ [name], IsName part)
    (hopen : IsOpen s.tree home) (hwrite : writeInto (.absolute place) name text s = .ok () s') :
    Changes home place [name] s s' ∧ s'.tree.HasFile (place ++ [name]) (Utf8.encode text) := by
  obtain ⟨hdirectory, hnode, hhas, hkeeps⟩ := writeInto_eq_ok h hwrite
  exact ⟨changes_of_keeps hopen hnode hdirectory hkeeps, hhas⟩

end HackToolchain.Cli.Golden
