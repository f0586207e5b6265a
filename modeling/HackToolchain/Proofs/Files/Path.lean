import HackToolchain.Files.Path
import Mathlib.Data.List.Basic

/-!
# The parts of a path

A path that has been read from a text has no slash in its parts, and so none in its stem
(`Path.slash_notMem_stem`).

The path of a place in a tree of files consists of names (`IsName`).  Its text is read as the same
path, with and without the dots that a path may have.

* `ofText_text_absolute`, `exact_text_absolute`: the path of a place is read from its text;
* `isName_dropParents`: without double dots the parts of a path are names.
-/

namespace HackToolchain.Files

/-- The name of a file or of a directory. -/
structure IsName (name : String) : Prop where
  ne_empty : name ≠ ""
  ne_dot : name ≠ "."
  ne_parent : name ≠ ".."
  no_slash : '/' ∉ name.toList

instance : DecidablePred IsName := fun name =>
  decidable_of_iff (name ≠ "" ∧ name ≠ "." ∧ name ≠ ".." ∧ '/' ∉ name.toList)
    ⟨fun ⟨hempty, hdot, hparent, hslash⟩ => ⟨hempty, hdot, hparent, hslash⟩,
      fun h => ⟨h.ne_empty, h.ne_dot, h.ne_parent, h.no_slash⟩⟩

namespace Path

/-! ### Slashes -/

theorem slash_notMem_splitSlashes_go (cs part : List Char) (hpart : '/' ∉ part) :
    ∀ p ∈ splitSlashes.go cs part, '/' ∉ p := by
  induction cs generalizing part with
  | nil => simpa [splitSlashes.go] using hpart
  | cons c cs ih =>
    rw [splitSlashes.go]
    split
    · rintro p (_ | ⟨_, hp⟩)
      · simpa using hpart
      · exact ih [] List.not_mem_nil p hp
    · rename_i hc
      exact ih (c :: part) (by simp [hpart, Ne.symm hc])

theorem slash_notMem_name (text : String) : '/' ∉ (ofText text).name.toList := by
  rw [name]
  cases hlast : (ofText text).parts.getLast? with
  | none => exact List.not_mem_nil
  | some part =>
    obtain ⟨cs, hcs, rfl⟩ := List.mem_map.1 (List.mem_of_getLast? hlast)
    rw [Option.getD_some, String.toList_ofList]
    exact slash_notMem_splitSlashes_go _ [] List.not_mem_nil cs (List.mem_filter.1 hcs).1

/-- The stem has no slash if the name has none. -/
theorem slash_notMem_stem_of_name {path : Path} (h : '/' ∉ path.name.toList) :
    '/' ∉ path.stem.toList := by
  rw [stem, String.toList_ofList]
  generalize path.name.toList = name at h ⊢
  rw [splitName]
  split
  · exact h
  · exact fun hmem => h (List.mem_of_mem_take hmem)

/-- The stem of a path that has been read from a text has no slash. -/
theorem slash_notMem_stem (text : String) : '/' ∉ (ofText text).stem.toList :=
  slash_notMem_stem_of_name (slash_notMem_name text)

/-- A text is split at its first slash. -/
theorem splitSlashes_append {cs : List Char} (h : '/' ∉ cs) (rest : List Char) :
    splitSlashes (cs ++ '/' :: rest) = cs :: splitSlashes rest := by
  have hgo (part : List Char) :
      splitSlashes.go (cs ++ '/' :: rest) part = (part.reverse ++ cs) :: splitSlashes rest := by
    induction cs generalizing part with
    | nil => simp [splitSlashes.go, splitSlashes]
    | cons c cs ih =>
      obtain ⟨hc, hcs⟩ := List.ne_and_not_mem_of_not_mem_cons h
      simp [splitSlashes.go, hc.symm, ih hcs]
  exact hgo []

theorem splitSlashes_eq_singleton {cs : List Char} (h : '/' ∉ cs) : splitSlashes cs = [cs] := by
  have hgo (part : List Char) : splitSlashes.go cs part = [part.reverse ++ cs] := by
    induction cs generalizing part with
    | nil => simp [splitSlashes.go]
    | cons c cs ih =>
      obtain ⟨hc, hcs⟩ := List.ne_and_not_mem_of_not_mem_cons h
      simp [splitSlashes.go, hc.symm, ih hcs]
  exact hgo []

/-- Texts without slashes are what they are joined to by slashes is split into. -/
theorem splitSlashes_intercalate {parts : List (List Char)} (hne : parts ≠ [])
    (h : ∀ part ∈ parts, '/' ∉ part) : splitSlashes (['/'].intercalate parts) = parts := by
  induction parts with
  | nil => contradiction
  | cons part parts ih =>
    obtain ⟨hpart, hparts⟩ := List.forall_mem_cons.1 h
    cases parts with
    | nil => rw [List.intercalate_singleton, splitSlashes_eq_singleton hpart]
    | cons next parts =>
      rw [List.intercalate_cons_cons, List.append_assoc, List.singleton_append,
        splitSlashes_append hpart, ih (List.cons_ne_nil _ _) hparts]

/-! ### Paths of places -/

@[simp] theorem child_absolute (location : List String) (name : String) :
    (absolute location).child name = absolute (location ++ [name]) :=
  rfl

theorem toList_text_absolute (location : List String) :
    (absolute location).text.toList = '/' :: ['/'].intercalate (location.map String.toList) := by
  have htext : (absolute location).text = "/" ++ "/".intercalate location := rfl
  rw [htext, String.toList_append, String.toList_intercalate]
  rfl

/-- The text of the path of an entry. -/
theorem text_absolute_concat {location : List String} (hne : location ≠ []) (name : String) :
    (absolute (location ++ [name])).text = (absolute location).text ++ "/" ++ name := by
  have hjoin {parts : List (List Char)} (hne : parts ≠ []) (part : List Char) :
      ['/'].intercalate (parts ++ [part]) = ['/'].intercalate parts ++ '/' :: part := by
    induction parts with
    | nil => contradiction
    | cons first parts ih =>
      cases parts with
      | nil => simp
      | cons next parts =>
        rw [List.cons_append, List.intercalate_cons_of_ne_nil (List.concat_ne_nil _ _),
          ih (List.cons_ne_nil _ _), List.intercalate_cons_of_ne_nil (List.cons_ne_nil _ _)]
        simp
  apply String.toList_inj.1
  rw [toList_text_absolute, List.map_append, List.map_singleton,
    hjoin (List.map_eq_nil_iff.not.2 hne), String.toList_append, String.toList_append,
    toList_text_absolute, List.append_assoc]
  rfl

theorem rootOf_text_absolute {location : List String} (h : ∀ name ∈ location, IsName name) :
    rootOf (absolute location).text.toList = "/" := by
  rw [toList_text_absolute]
  cases location with
  | nil => rfl
  | cons name location =>
    have hname := h name List.mem_cons_self
    -- behind the first slash stands a name, so that no second one follows
    have hhead : ∃ c cs, ['/'].intercalate ((name :: location).map String.toList) = c :: cs ∧
        c ≠ '/' := by
      cases hcs : name.toList with
      | nil => exact absurd (String.toList_eq_nil_iff.1 hcs) hname.ne_empty
      | cons c cs =>
        have hc : c ≠ '/' := by
          rintro rfl
          exact hname.no_slash (hcs ▸ List.mem_cons_self)
        cases location with
        | nil => exact ⟨c, cs, by simp [hcs], hc⟩
        | cons next location =>
          refine ⟨c, cs ++ ['/'] ++ ['/'].intercalate (next.toList :: location.map String.toList),
            ?_, hc⟩
          rw [List.map_cons, List.map_cons, List.intercalate_cons_cons, hcs]
          simp
    obtain ⟨c, cs, htext, hc⟩ := hhead
    rw [htext, rootOf]
    · rintro _ heq
      injection heq with hslash
      exact hc hslash
    · rintro _ heq
      injection heq with hslash
      exact hc hslash

/-- The parts of the text of the path of a place, empty ones aside, are the names. -/
theorem filter_parts_absolute {location : List String} (h : ∀ name ∈ location, IsName name) :
    (splitSlashes (absolute location).text.toList).filter (· != []) =
      location.map String.toList := by
  have hslash : ∀ part ∈ location.map String.toList, '/' ∉ part := by
    intro part hpart
    obtain ⟨name, hname, rfl⟩ := List.mem_map.1 hpart
    exact (h name hname).no_slash
  have hfull : ∀ part ∈ location.map String.toList, (part != []) = true := by
    intro part hpart
    obtain ⟨name, hname, rfl⟩ := List.mem_map.1 hpart
    rw [bne_iff_ne, Ne, String.toList_eq_nil_iff]
    exact (h name hname).ne_empty
  -- the part in front of the first slash is empty
  have hsplit : splitSlashes ([] ++ '/' :: ['/'].intercalate (location.map String.toList)) =
      [] :: splitSlashes (['/'].intercalate (location.map String.toList)) :=
    splitSlashes_append List.not_mem_nil _
  rw [toList_text_absolute, ← List.nil_append ('/' :: _), hsplit]
  cases location with
  | nil => rfl
  | cons name location =>
    have hne : (name :: location).map String.toList ≠ [] := List.cons_ne_nil _ _
    rw [splitSlashes_intercalate hne hslash, List.filter_cons_of_neg (by decide),
      List.filter_eq_self.2 hfull]

/-- The path of a place is read from its text. -/
theorem ofText_text_absolute {location : List String} (h : ∀ name ∈ location, IsName name) :
    ofText (absolute location).text = absolute location := by
  have hdots : ∀ part ∈ location.map String.toList, (part != ['.']) = true := by
    intro part hpart
    obtain ⟨name, hname, rfl⟩ := List.mem_map.1 hpart
    rw [bne_iff_ne]
    intro hdot
    exact (h name hname).ne_dot (String.toList_inj.1 hdot)
  have hparts : (splitSlashes (absolute location).text.toList).filter
      (fun part => part != [] && part != ['.']) = location.map String.toList := by
    have hcomm : (fun part : List Char => part != [] && part != ['.']) =
        fun part => part != ['.'] && part != [] :=
      funext fun part => Bool.and_comm _ _
    rw [hcomm, ← List.filter_filter, filter_parts_absolute h]
    exact List.filter_eq_self.2 hdots
  rw [ofText, rootOf_text_absolute h, hparts, List.map_map]
  simp [absolute, Function.comp_def]

theorem isSuffix_intercalate (front : List (List Char)) (part : List Char) :
    part <:+ ['/'].intercalate (front ++ [part]) := by
  induction front with
  | nil =>
    have hpart : ['/'].intercalate ([] ++ [part]) = part := List.intercalate_singleton
    exact hpart.symm ▸ List.suffix_refl part
  | cons first front ih =>
    have hsplit : ['/'].intercalate (first :: front ++ [part]) =
        first ++ ['/'] ++ ['/'].intercalate (front ++ [part]) := by
      cases front with
      | nil => exact List.intercalate_cons_cons
      | cons next front => exact List.intercalate_cons_cons
    rw [hsplit]
    exact List.suffix_append_of_suffix ih

/-- The path of a place other than the root is read from its text with nothing dropped. -/
theorem exact_text_absolute {location : List String} (h : ∀ name ∈ location, IsName name)
    (hne : location ≠ []) : exact (absolute location).text = absolute location := by
  have hlast : (absolute location).text.toList.getLast? ≠ some '/' := by
    obtain ⟨front, name, rfl⟩ := (List.eq_nil_or_concat' location).resolve_left hne
    have hname := h name (List.mem_append_right front List.mem_cons_self)
    have hsuffix := isSuffix_intercalate (front.map String.toList) name.toList
    obtain ⟨cs, hcs⟩ := hsuffix.trans (List.suffix_cons '/' _)
    rw [toList_text_absolute, List.map_append, List.map_singleton, ← hcs,
      List.getLast?_append_of_ne_nil _ (by rw [Ne, String.toList_eq_nil_iff]; exact hname.ne_empty)]
    exact fun hslash => hname.no_slash (List.mem_of_getLast? hslash)
  have hparts : ((splitSlashes (absolute location).text.toList).filter (· != [])).map
      String.ofList = location := by
    rw [filter_parts_absolute h, List.map_map]
    simp [Function.comp_def]
  rw [exact, rootOf_text_absolute h]
  dsimp only
  rw [hparts, if_neg (by simpa using hlast)]
  rfl

/-! ### Double dots -/

/-- Without double dots the parts of a path are names, if the others are. -/
theorem isName_dropParents {path : Path} (h : ∀ part ∈ path.parts, part ≠ ".." → IsName part) :
    ∀ name ∈ path.dropParents.parts, IsName name := by
  have hgo {parts kept : List String} (hparts : ∀ part ∈ parts, part ≠ ".." → IsName part)
      (hkept : ∀ name ∈ kept, IsName name) : ∀ name ∈ dropParents.go parts kept, IsName name := by
    induction parts generalizing kept with
    | nil =>
      intro name hname
      exact hkept name (List.mem_reverse.1 hname)
    | cons part parts ih =>
      obtain ⟨hpart, hrest⟩ := List.forall_mem_cons.1 hparts
      rw [dropParents.go]
      split
      · exact ih hrest fun name hname => hkept name (List.mem_of_mem_tail hname)
      · exact ih hrest (List.forall_mem_cons.2 ⟨hpart ‹_›, hkept⟩)
  exact hgo h fun _ hname => absurd hname List.not_mem_nil

/-- The parts of a path that has been read from a text are names or double dots. -/
theorem isName_of_mem_ofText {text part : String} (h : part ∈ (ofText text).parts)
    (hne : part ≠ "..") : IsName part := by
  obtain ⟨cs, hcs, rfl⟩ := List.mem_map.1 h
  obtain ⟨hmem, hkept⟩ := List.mem_filter.1 hcs
  rw [Bool.and_eq_true, bne_iff_ne, bne_iff_ne] at hkept
  refine ⟨fun hempty => hkept.1 ?_, fun hdot => hkept.2 ?_, hne, ?_⟩
  · rw [← String.toList_ofList (l := cs), hempty]
    rfl
  · rw [← String.toList_ofList (l := cs), hdot]
    rfl
  · rw [String.toList_ofList]
    exact slash_notMem_splitSlashes_go _ [] List.not_mem_nil cs hmem

end Path

end HackToolchain.Files
