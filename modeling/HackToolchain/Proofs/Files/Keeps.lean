import HackToolchain.Proofs.Files.Tree

/-!
# What changes keep

A change of a tree is described by the places that it may touch.  Places are *free* if anything may
happen there, and *made* if a directory may be made where there is nothing.  All other places keep
what they have, and directories without free source files keep the names of their source files
(`Keeps`).

* `keeps_set`, `keeps_erase`, `keeps_copy`, `keeps_ensureDirectories`: what each change keeps;
* `Keeps.trans`: what changes keep that follow each other;
* `Keeps.hasFile`: files that are kept;
* `Keeps.erase_of_isVacant`: what is put where there was nothing is gone when it is erased.
-/

namespace HackToolchain.Files.Tree

variable {tree tree' : Tree} {directory location : Location} {free made : Location → Prop}

/-- The name is that of a source file. -/
def IsSourceName (name : String) : Prop :=
  (Path.mk "" [name]).suffix = sourceSuffix

/-- The second tree has what the first one has at all places that are not free.  Only a directory
can be where there was nothing, at a place where it may be made. -/
structure Keeps (free made : Location → Prop) (tree tree' : Tree) : Prop where
  lookup_eq : ∀ location, ¬ free location → tree'.lookup location = tree.lookup location ∨
    made location ∧ tree.lookup location = none ∧ tree'.lookup location = some .directory
  sourceNames_eq : ∀ location, (∀ name, IsSourceName name → ¬ free (location ++ [name])) →
    tree'.sourceNames location = tree.sourceNames location

namespace Keeps

theorem refl (tree : Tree) : Keeps free made tree tree :=
  ⟨fun _ _ => .inl rfl, fun _ _ => rfl⟩

theorem trans {tree'' : Tree} (h : Keeps free made tree tree')
    (h' : Keeps free made tree' tree'') : Keeps free made tree tree'' := by
  refine ⟨fun location hfree => ?_, fun location hfree =>
    (h'.sourceNames_eq location hfree).trans (h.sourceNames_eq location hfree)⟩
  rcases h.lookup_eq location hfree with heq | ⟨hmade, hnone, hmiddle⟩
  · rw [← heq]
    exact h'.lookup_eq location hfree
  · rcases h'.lookup_eq location hfree with heq' | ⟨-, hnone', -⟩
    · exact .inr ⟨hmade, hnone, heq'.trans hmiddle⟩
    · rw [hmiddle] at hnone'
      cases hnone'

theorem mono {free' made' : Location → Prop} (h : Keeps free made tree tree')
    (hfree : ∀ location, free location → free' location)
    (hmade : ∀ location, made location → made' location) : Keeps free' made' tree tree' := by
  refine ⟨fun location hnot => ?_, fun location hnot => ?_⟩
  · exact (h.lookup_eq location fun hl => hnot (hfree location hl)).imp_right
      (And.imp_left (hmade location))
  · exact h.sourceNames_eq location fun name hname hl => hnot name hname (hfree _ hl)

/-- What there is stays there. -/
theorem lookup_some (h : Keeps free made tree tree') {node : Node} (hfree : ¬ free location)
    (hnode : tree.lookup location = some node) : tree'.lookup location = some node := by
  rcases h.lookup_eq location hfree with heq | ⟨-, hnone, -⟩
  · rw [heq, hnode]
  · rw [hnone] at hnode
    cases hnode

/-- What is not made stays as it is. -/
theorem lookup_of_not_made (h : Keeps free made tree tree') (hfree : ¬ free location)
    (hmade : ¬ made location) : tree'.lookup location = tree.lookup location :=
  (h.lookup_eq location hfree).resolve_right fun hnew => hmade hnew.1

/-- A file has been there before. -/
theorem lookup_of_file (h : Keeps free made tree tree') {content : ByteArray}
    (hfree : ¬ free location) (hfile : tree'.lookup location = some (.file content)) :
    tree.lookup location = some (.file content) := by
  rcases h.lookup_eq location hfree with heq | ⟨-, -, hdirectory⟩
  · rw [← heq, hfile]
  · rw [hdirectory] at hfile
    cases hfile

theorem admits (h : Keeps free made tree tree')
    (hfree : ∀ front, front <+: location → front ≠ location → ¬ free front)
    (hadmits : tree.Admits location) : tree'.Admits location :=
  fun front hfront hne => h.lookup_some (hfree front hfront hne) (hadmits front hfront hne)

theorem hasFile (h : Keeps free made tree tree') {content : ByteArray}
    (hfree : ∀ front, front <+: location → ¬ free front) (hfile : tree.HasFile location content) :
    tree'.HasFile location content where
  isUsable := hfile.isUsable
  admits := h.admits (fun front hfront _ => hfree front hfront) hfile.admits
  lookup_eq := h.lookup_some (hfree location (List.prefix_refl location)) hfile.lookup_eq

end Keeps

/-! ### Source names -/

/-- The name of a source file right inside a directory, of an entry of a tree. -/
def sourceName? (location : Location) (entry : Location × Node) : Option String :=
  match entry.1.getLast?, entry.2 with
  | some name, .file _ =>
    if entry.1.dropLast = location then
      if (Path.mk "" [name]).suffix = sourceSuffix then some name else none
    else none
  | _, _ => none

theorem sourceNames_eq_filterMap (tree : Tree) (location : Location) :
    tree.sourceNames location =
      (tree.entries.filterMap (sourceName? location)).mergeSort fun a b => !(b < a : Bool) := by
  unfold sourceNames children
  dsimp only
  rw [List.filterMap_filterMap]
  congr 2
  funext entry
  obtain ⟨key, node⟩ := entry
  unfold sourceName?
  cases key.getLast? with
  | none => rfl
  | some name =>
    dsimp only
    split
    · rw [Option.bind_some]
      cases node <;> rfl
    · rw [Option.bind_none]
      cases node <;> rfl

/-- A source file is an entry with its name. -/
theorem exists_of_mem_sourceNames {name : String} (h : name ∈ tree.sourceNames location) :
    ∃ entry ∈ tree.entries, name ∈ entry.1 := by
  rw [sourceNames_eq_filterMap, List.mem_mergeSort] at h
  obtain ⟨entry, hentry, hname⟩ := List.mem_filterMap.1 h
  refine ⟨entry, hentry, ?_⟩
  unfold sourceName? at hname
  split at hname
  · rename_i last content hlast _
    split at hname
    · split at hname
      · injection hname with hname
        exact hname ▸ List.mem_of_getLast? hlast
      · cases hname
    · cases hname
  · cases hname

theorem sourceName?_eq_none_of_dropLast {entry : Location × Node}
    (h : entry.1.dropLast ≠ location) : sourceName? location entry = none := by
  unfold sourceName?
  split
  · rw [if_neg h]
  · rfl

/-- Entries at free places, and directories, name no source file of a directory whose source files
are not free. -/
theorem sourceName?_eq_none {entry : Location × Node}
    (hfree : ∀ name, IsSourceName name → ¬ free (location ++ [name]))
    (h : free entry.1 ∨ entry.2 = .directory) : sourceName? location entry = none := by
  obtain ⟨key, node⟩ := entry
  unfold sourceName?
  split
  · rename_i name content hlast hnode
    split
    · rename_i hdrop
      split
      · rename_i hname
        -- a source file of a directory stands right below it
        have hkey : key = location ++ [name] := by
          rw [← hdrop]
          exact (List.dropLast_append_getLast? name hlast).symm
        rcases h with h | h
        · exact absurd (hkey ▸ h) (hfree name hname)
        · rw [hnode] at h
          cases h
      · rfl
    · rfl
  · rfl

theorem filterMap_filter_of_none {α β : Type} {p : α → Bool} {f : α → Option β} {xs : List α}
    (h : ∀ x ∈ xs, p x = false → f x = none) : (xs.filter p).filterMap f = xs.filterMap f := by
  induction xs with
  | nil => rfl
  | cons x xs ih =>
    obtain ⟨hx, hxs⟩ := List.forall_mem_cons.1 h
    cases hp : p x with
    | true => rw [List.filter_cons_of_pos hp, List.filterMap_cons, List.filterMap_cons, ih hxs]
    | false =>
      rw [List.filter_cons_of_neg (by rw [hp]; exact Bool.false_ne_true), ih hxs,
        List.filterMap_cons_none (hx hp)]

/-! ### Changes -/

theorem sourceNames_set {node : Node} {place : Location}
    (hhead : sourceName? location (place, node) = none)
    (hold : ∀ entry ∈ tree.entries, entry.1 = place → sourceName? location entry = none) :
    (tree.set place node).sourceNames location = tree.sourceNames location := by
  have hentries : (tree.set place node).entries =
      (place, node) :: tree.entries.filter (·.1 != place) := rfl
  rw [sourceNames_eq_filterMap, sourceNames_eq_filterMap, hentries, List.filterMap_cons_none hhead,
    filterMap_filter_of_none]
  intro entry hentry hplace
  exact hold entry hentry (by simpa using hplace)

/-- Anything at a free place. -/
theorem keeps_set (hfree : free location) (node : Node) :
    Keeps free made tree (tree.set location node) := by
  have hother {other : Location} (h : ¬ free other) : other ≠ location := by
    rintro rfl
    exact h hfree
  refine ⟨fun other h => .inl (lookup_set_of_ne tree (hother h) node), fun other h => ?_⟩
  apply sourceNames_set (sourceName?_eq_none h (.inl hfree))
  rintro entry - rfl
  exact sourceName?_eq_none h (.inl hfree)

/-- A directory where there is nothing, at a place where it may be made. -/
theorem keeps_set_directory (hmade : made location) (hnone : tree.lookup location = none) :
    Keeps free made tree (tree.set location .directory) := by
  have hne : location ≠ [] := by
    rintro rfl
    cases hnone
  refine ⟨fun other h => ?_, fun other h => ?_⟩
  · by_cases hother : other = location
    · subst hother
      exact .inr ⟨hmade, hnone, lookup_set_self tree hne .directory⟩
    · exact .inl (lookup_set_of_ne tree hother .directory)
  · apply sourceNames_set (sourceName?_eq_none h (.inr rfl))
    rintro entry hentry rfl
    -- there is no entry for a place with nothing there
    unfold lookup at hnone
    split at hnone
    · cases hnone
    · simpa using List.lookup_eq_none_iff.1 hnone entry hentry

/-- The tree in which the directories have been made, all of them or as many as possible. -/
def remaining : Except Stopped Tree → Tree
  | .ok tree => tree
  | .error stopped => stopped.tree

theorem keeps_remaining (hmade : ∀ front, front <+: location → made front) :
    Keeps free made tree (remaining (tree.ensureDirectories location)) := by
  -- the directories are made one by one, from the root down
  have hgo {places : List Location} (hplaces : ∀ place ∈ places, made place)
      {reported : Location} {tree : Tree} :
      Keeps free made tree (remaining (ensureDirectories.go reported tree places)) := by
    induction places generalizing reported tree with
    | nil => exact Keeps.refl tree
    | cons place places ih =>
      obtain ⟨hplace, hrest⟩ := List.forall_mem_cons.1 hplaces
      rw [ensureDirectories.go]
      split
      · exact ih hrest
      · exact Keeps.refl tree
      · rename_i hnone
        split
        · exact Keeps.refl tree
        · exact (keeps_set_directory hplace hnone).trans (ih hrest)
  unfold ensureDirectories
  split
  · exact Keeps.refl tree
  · apply hgo
    intro place hplace
    obtain ⟨n, -, rfl⟩ := List.mem_map.1 hplace
    exact hmade _ (List.take_prefix _ _)

/-- Directories that are made on the way to a place. -/
theorem keeps_ensureDirectories (hmade : ∀ front, front <+: location → made front)
    (h : tree.ensureDirectories location = .ok tree') : Keeps free made tree tree' := by
  have hkeeps : Keeps free made tree (remaining (tree.ensureDirectories location)) :=
    keeps_remaining hmade
  rwa [h] at hkeeps

/-- Directories that are made until one of them cannot be. -/
theorem keeps_stopped (hmade : ∀ front, front <+: location → made front) {stopped : Stopped}
    (h : tree.ensureDirectories location = .error stopped) :
    Keeps free made tree stopped.tree := by
  have hkeeps : Keeps free made tree (remaining (tree.ensureDirectories location)) :=
    keeps_remaining hmade
  rwa [h] at hkeeps

/-- What is at a place that is kept or dropped from the entries. -/
theorem lookup_filter (p : Location → Bool) (key : Location) (entries : List (Location × Node)) :
    (entries.filter fun entry => p entry.1).lookup key =
      if p key then entries.lookup key else none := by
  induction entries with
  | nil => rw [List.filter_nil, List.lookup_nil, ite_self]
  | cons entry entries ih =>
    by_cases hkey : key = entry.1
    · subst hkey
      have hself : (entry.1 == entry.1) = true := beq_self_eq_true _
      cases hp : p entry.1 with
      | true =>
        rw [List.filter_cons, hp, if_pos rfl, if_pos rfl, List.lookup_cons, List.lookup_cons, hself]
      | false =>
        rw [List.filter_cons_of_neg (by rw [hp]; exact Bool.false_ne_true), ih, hp]
        rfl
    · have hne : (key == entry.1) = false := by simpa using hkey
      rw [List.lookup_cons, hne, ← ih, List.filter_cons]
      split
      · rw [List.lookup_cons, hne]
      · rfl

theorem lookup_erase_of_not {other : Location} (h : ¬ location <+: other) :
    (tree.erase location).lookup other = tree.lookup other := by
  have hkept : location.isPrefixOf other = false := by
    rwa [Bool.eq_false_iff, Ne, List.isPrefixOf_iff_prefix]
  have hentries := lookup_filter (fun place => !location.isPrefixOf place) other tree.entries
  unfold lookup erase
  rw [hentries, hkept, if_pos Bool.not_false]

theorem lookup_erase_of_prefix {other : Location} (hne : location ≠ [])
    (h : location <+: other) : (tree.erase location).lookup other = none := by
  have hdropped : location.isPrefixOf other = true := List.isPrefixOf_iff_prefix.2 h
  have hentries := lookup_filter (fun place => !location.isPrefixOf place) other tree.entries
  have hother : other ≠ [] := by
    rintro rfl
    exact hne (List.prefix_nil.1 h)
  unfold lookup erase
  rw [if_neg hother, hentries, hdropped, if_neg (by decide)]

/-- A place that is erased, with all below it. -/
theorem keeps_erase (hfree : ∀ other, location <+: other → free other) :
    Keeps free made tree (tree.erase location) := by
  refine ⟨fun other h => .inl (lookup_erase_of_not fun hunder => h (hfree other hunder)),
    fun other h => ?_⟩
  rw [sourceNames_eq_filterMap, sourceNames_eq_filterMap, erase, filterMap_filter_of_none]
  intro entry hentry hunder
  apply sourceName?_eq_none h (.inl (hfree _ _))
  simpa using hunder

/-- There is nothing at the place, nor below it. -/
def IsVacant (tree : Tree) (location : Location) : Prop :=
  ∀ other, location <+: other → tree.lookup other = none

theorem isVacant_iff : tree.IsVacant location ↔
    location ≠ [] ∧ ∀ entry ∈ tree.entries, ¬ location <+: entry.1 := by
  constructor
  · intro h
    have hne : location ≠ [] := by
      rintro rfl
      cases h [] (List.prefix_refl [])
    refine ⟨hne, fun entry hentry hunder => ?_⟩
    have hnone := h entry.1 hunder
    unfold lookup at hnone
    split at hnone
    · cases hnone
    · simpa using List.lookup_eq_none_iff.1 hnone entry hentry
  · rintro ⟨hne, h⟩ other hunder
    have hother : other ≠ [] := by
      rintro rfl
      exact hne (List.prefix_nil.1 hunder)
    unfold lookup
    rw [if_neg hother, List.lookup_eq_none_iff]
    intro entry hentry
    rw [bne_iff_ne]
    rintro rfl
    exact h entry hentry hunder

/-- A place stays vacant if no directory is made there. -/
theorem Keeps.isVacant (h : Keeps (fun _ => False) made tree tree')
    (hmade : ∀ other, location <+: other → ¬ made other) (hvacant : tree.IsVacant location) :
    tree'.IsVacant location := by
  intro other hunder
  rw [h.lookup_of_not_made not_false (hmade other hunder)]
  exact hvacant other hunder

theorem isVacant_erase (h : location ≠ []) : (tree.erase location).IsVacant location :=
  fun _ hunder => lookup_erase_of_prefix h hunder

/-- There are no source files where there is nothing. -/
theorem IsVacant.sourceNames_eq {directory : Location} (h : tree.IsVacant location)
    (hunder : location <+: directory) : tree.sourceNames directory = [] := by
  rw [sourceNames_eq_filterMap, List.filterMap_eq_nil_iff.2, List.mergeSort_nil]
  intro entry hentry
  apply sourceName?_eq_none_of_dropLast
  rintro rfl
  exact (isVacant_iff.1 h).2 entry hentry (hunder.trans (List.dropLast_prefix entry.1))

/-- What is put at and below a place where there was nothing is gone when the place is erased, and
nothing else has been changed. -/
theorem Keeps.erase_of_isVacant {made' : Location → Prop} {name : String}
    (h : Keeps (location ++ [name] <+: ·) made tree tree') (hname : ¬ IsSourceName name)
    (hvacant : tree.IsVacant (location ++ [name]))
    (hmade : ∀ other, ¬ location ++ [name] <+: other → made other → made' other) :
    Keeps (fun _ => False) made' tree (tree'.erase (location ++ [name])) := by
  have hgone : (tree'.erase (location ++ [name])).IsVacant (location ++ [name]) :=
    isVacant_erase (List.concat_ne_nil _ _)
  refine ⟨fun other _ => ?_, fun directory _ => ?_⟩
  · by_cases hunder : location ++ [name] <+: other
    · exact .inl ((hgone other hunder).trans (hvacant other hunder).symm)
    · rw [lookup_erase_of_not hunder]
      exact (h.lookup_eq other hunder).imp_right (And.imp_left (hmade other hunder))
  · by_cases hunder : location ++ [name] <+: directory
    · rw [hgone.sourceNames_eq hunder, hvacant.sourceNames_eq hunder]
    · apply (h.trans (keeps_erase fun _ => id)).sourceNames_eq directory
      -- a source file below the place is a source file of a directory below it
      intro source hsource hbelow
      rcases List.prefix_concat_iff.1 hbelow with heq | hbelow
      · obtain ⟨-, heq⟩ := List.append_inj' heq rfl
        injection heq with heq
        exact hname (heq ▸ hsource)
      · exact hunder hbelow

/-- A directory that is copied to a free place. -/
theorem keeps_copy (hfree : ∀ other, location <+: other → free other) (source : Location) :
    Keeps free made tree (tree.copy source location) := by
  have hfold (entries : List (Location × Node)) (tree : Tree) :
      Keeps free made tree
        (entries.foldl (fun tree entry => tree.set (location ++ entry.1) entry.2) tree) := by
    induction entries generalizing tree with
    | nil => exact Keeps.refl tree
    | cons entry entries ih =>
      exact (keeps_set (hfree _ (List.prefix_append location entry.1)) entry.2).trans (ih _)
  exact (keeps_set (hfree location (List.prefix_refl location)) .directory).trans (hfold _ _)

end HackToolchain.Files.Tree
