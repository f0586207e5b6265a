import HackToolchain.Cli.Commands
import HackToolchain.Proofs.Cli.Verification

/-!
# Recording and comparing

Records that have been written are found to agree with their examples when they are compared right
away, with the same directory, examples and tick limit.  This needs that nothing is in the way of
the comparison (`IsClear`): a schedule is only ever written and never removed, so an example without
one is compared under a schedule that has been left in the directory of its record.

* `recorded_of_recordAll`: all records agree that have been written;
* `verifyAll_of_recorded`: records that agree are all found to agree;
* `run_verify_of_record`: a comparison that follows a recording finds no difference;
* `run_verify_withSchedule`: it can find one where a schedule has been left.
-/

namespace HackToolchain.Cli.Golden

open Files Text Session

variable {out : Location} {r r' : Request} {e : Example} {ticks : Int} {list : List Example}
variable {s s' t : Session}

/-! ### Requests -/

/-- The request that some arguments make. -/
def requestOf (arguments : List String) : Except Refusal Request :=
  (grammar.parse arguments).map fun given => given.foldl Request.add {}

/-- The examples that a request is about. -/
def Request.selection (r : Request) : List Example :=
  if r.only = [] then Golden.examples
  else Golden.examples.filter fun e => some e.name ∈ r.only

/-- The place of the records of a request. -/
def Request.place (r : Request) (directory : Location) : Location :=
  ((Files.Path.absolute directory).join (.ofText (r.directory.getD ""))).dropParents.parts

theorem command_eq_ok {arguments : List String} (hrequest : requestOf arguments = .ok r) :
    command arguments = perform r := by
  unfold requestOf at hrequest
  unfold command
  cases hparse : grammar.parse arguments with
  | error refusal =>
    rw [hparse] at hrequest
    cases hrequest
  | ok given =>
    rw [hparse] at hrequest
    injection hrequest with hrequest
    exact congrArg perform hrequest

theorem carries_need {α : Type} (value : MissingValue) (given : Option α) :
    Carries s t (need value given) := by
  cases given with
  | none =>
    intro a s' h
    cases h
  | some given => exact carries_pure given

theorem need_eq_ok {α : Type} {value : MissingValue} {given : Option α} {a : α}
    (h : need value given s = .ok a s') : given = some a ∧ s' = s := by
  cases given with
  | none => cases h
  | some given =>
    obtain ⟨rfl, rfl⟩ := pure_eq_ok_iff.1 h
    exact ⟨rfl, rfl⟩

theorem mapM_need_eq_ok {α : Type} {value : MissingValue} {given : List (Option α)} {as : List α}
    (h : given.mapM (need value) s = .ok as s') : given = as.map some := by
  induction given generalizing as s s' with
  | nil =>
    obtain ⟨rfl, -⟩ := pure_eq_ok_iff.1 h
    rfl
  | cons first given ih =>
    rw [List.mapM_cons] at h
    obtain ⟨a, t, hfirst, hrest⟩ := bind_eq_ok_iff.1 h
    obtain ⟨rfl, rfl⟩ := need_eq_ok hfirst
    obtain ⟨rest, t, hgiven, hpure⟩ := bind_eq_ok_iff.1 hrest
    obtain ⟨rfl, -⟩ := pure_eq_ok_iff.1 hpure
    rw [List.map_cons, ih hgiven]

/-- The examples of a request do not depend on the session. -/
theorem examples_eq_ok (h : r.examples s = .ok list s') :
    list = r.selection ∧ s' = s ∧ ∀ t, r.examples t = .ok list t := by
  have hcarries (t : Session) : Carries s t r.examples :=
    (carries_mapM fun name _ => carries_need _ name).bind fun names _ => carries_pure _
  refine ⟨?_, (hcarries s _ _ h).1, fun t => (hcarries t _ _ h).2⟩
  obtain ⟨names, u, hnames, hpure⟩ := bind_eq_ok_iff.1 h
  obtain ⟨rfl, -⟩ := pure_eq_ok_iff.1 hpure
  rw [Request.selection, mapM_need_eq_ok hnames]
  cases names with
  | nil => rfl
  | cons name names =>
    rw [List.isEmpty_cons, if_neg Bool.false_ne_true, if_neg (by simp)]
    apply List.filter_congr
    intro e _
    rw [Bool.eq_iff_iff, List.contains_iff_mem, decide_eq_true_iff]
    simp

/-- The place of the records depends on the directory of the session alone. -/
theorem recordPath_eq_ok {path : Files.Path} (h : recordPath r s = .ok path s') :
    path = .absolute (r.place s.directory) ∧ s' = s ∧
      ∀ t : Session, t.directory = s.directory → recordPath r t = .ok path t := by
  obtain ⟨name, u, hname, hrest⟩ := bind_eq_ok_iff.1 h
  obtain ⟨hdirectory, rfl⟩ := need_eq_ok hname
  rw [Request.place, hdirectory]
  cases hnul : Tree.hasNul name with
  | true =>
    rw [hnul] at hrest
    cases hrest
  | false =>
    rw [hnul] at hrest
    injection hrest with hpath hu
    refine ⟨hpath.symm, hu.symm, fun t ht => bind_eq_ok_iff.2 ⟨name, t, ?_, ?_⟩⟩
    · rw [hdirectory]
      rfl
    · rw [hnul, ← hpath, ← ht]
      rfl

theorem ticksFor_eq_ok (h : r.ticksFor e s = .ok ticks s') :
    s' = s ∧ ∀ t, r.ticksFor e t = .ok ticks t := by
  have hcarries (t : Session) : Carries s t (r.ticksFor e) := by
    unfold Request.ticksFor
    cases r.ticks with
    | none => exact carries_pure _
    | some limit => exact carries_need _ limit
  exact ⟨(hcarries s _ _ h).1, fun t => (hcarries t _ _ h).2⟩

theorem isName_place {directory : Location} (hdirectory : ∀ part ∈ directory, IsName part) :
    ∀ part ∈ r.place directory, IsName part := by
  apply Files.Path.isName_dropParents
  intro part hpart hne
  rw [Files.Path.join] at hpart
  split at hpart
  · exact Files.Path.isName_of_mem_ofText hpart hne
  · rcases List.mem_append.1 hpart with hpart | hpart
    · exact hdirectory part hpart
    · exact Files.Path.isName_of_mem_ofText hpart hne

theorem selection_subset : r.selection ⊆ examples := by
  unfold Request.selection
  split
  · exact List.Subset.refl _
  · exact List.filter_subset_self _

theorem eq_of_name_eq : ∀ e ∈ examples, ∀ e' ∈ examples, e.name = e'.name → e = e' := by
  decide

theorem nodup_selection : (r.selection.map Example.name).Nodup := by
  have hnodup : (examples.map Example.name).Nodup := by decide
  unfold Request.selection
  split
  · exact hnodup
  · exact hnodup.sublist (List.filter_sublist.map _)

/-! ### Recording -/

/-- The first record is written, and then the others. -/
theorem recordAll_cons_eq_ok (h : recordAll r (.absolute out) (e :: list) s = .ok () s') :
    ∃ ticks text t, (∀ t, r.ticksFor e t = .ok ticks t) ∧
      record e ticks r.trace (.absolute (out ++ [e.name])) { s with out := text } = .ok () t ∧
        recordAll r (.absolute out) list t = .ok () s' := by
  unfold recordAll at h ⊢
  rw [List.forIn_cons] at h
  obtain ⟨last, v, hloop, hlast⟩ := bind_eq_ok_iff.1 h
  obtain ⟨step, t, hfirst, hrest⟩ := bind_eq_ok_iff.1 hloop
  obtain ⟨ticks, u, hlimit, hprinted⟩ := bind_eq_ok_iff.1 hfirst
  obtain ⟨rfl, hticks⟩ := ticksFor_eq_ok hlimit
  obtain ⟨_, w, hprint, hrecorded⟩ := bind_eq_ok_iff.1 hprinted
  injection hprint with _ hprint
  subst hprint
  obtain ⟨_, x, hrecord, hyield⟩ := bind_eq_ok_iff.1 hrecorded
  obtain ⟨rfl, rfl⟩ := pure_eq_ok_iff.1 hyield
  exact ⟨ticks, _, t, hticks, hrecord, bind_eq_ok_iff.2 ⟨last, v, hrest, hlast⟩⟩

/-- All records agree that have been written. -/
theorem recorded_of_recordAll (hlist : list ⊆ examples) (hnodup : (list.map Example.name).Nodup)
    (hdirectory : ∀ part ∈ s.directory, IsName part) (hout : ∀ part ∈ out, IsName part)
    (hnames : ∀ e ∈ list, NamesAreProper s.tree (home s.directory ++ [e.source]))
    (h : recordAll r (.absolute out) list s = .ok () s') :
    ChangesAll out list Example.recordNames s s' ∧ ∀ e ∈ list, ∃ ticks code report schedule,
      (∀ t, r.ticksFor e t = .ok ticks t) ∧
        Recorded s' (out ++ [e.name]) e ticks code report schedule := by
  induction list generalizing s with
  | nil =>
    obtain ⟨-, rfl⟩ := pure_eq_ok_iff.1 h
    exact ⟨ChangesAll.refl _, fun e he => absurd he List.not_mem_nil⟩
  | cons e list ih =>
    obtain ⟨he, hsubset⟩ := List.cons_subset.1 hlist
    obtain ⟨hname, hnodup⟩ := List.nodup_cons.1 hnodup
    obtain ⟨hnames, hnames'⟩ := List.forall_mem_cons.1 hnames
    obtain ⟨ticks, text, t, hticks, hrecord, hrest⟩ := recordAll_cons_eq_ok h
    obtain ⟨hchanges, code, report, schedule, hrecorded⟩ :=
      recorded_of_record (s := { s with out := text }) he hdirectory hout hnames hrecord
    have hprinted : ChangesAll out (e :: list) Example.recordNames { s with out := text } t :=
      hchanges.all List.mem_cons_self
    have hfirst : ChangesAll out (e :: list) Example.recordNames s t :=
      ⟨hprinted.directory_eq, hprinted.keeps⟩
    have hproper {e' : Example} (he' : e' ∈ examples)
        (hnames : NamesAreProper s.tree (home s.directory ++ [e'.source])) :
        NamesAreProper t.tree (home t.directory ++ [e'.source]) :=
      hfirst.namesAreProper he' hlist (fun e _ => recordNames_subset e) hnames
    have hdirectory' : ∀ part ∈ t.directory, IsName part := hfirst.directory_eq ▸ hdirectory
    obtain ⟨hothers, hall⟩ := ih hsubset hnodup hdirectory'
      (fun e' he' => hproper (hsubset he') (hnames' e' he')) hrest
    refine ⟨hfirst.trans (hothers.mono (List.subset_cons_self e list)),
      List.forall_mem_cons.2 ⟨⟨ticks, code, report, schedule, hticks, ?_⟩, hall⟩⟩
    -- the other records have other names
    refine hrecorded.of_changes he hdirectory' (hproper he hnames) hothers hsubset
      (fun e _ => recordNames_subset e) fun e' he' heq => ?_
    exact hname (heq ▸ List.mem_map_of_mem he')

/-! ### Comparing -/

/-- What a comparison that finds no difference says about some examples. -/
def announcement : List Example → String
  | [] => ""
  | e :: list => "[verify] " ++ e.name ++ "\n" ++ announcement list

/-- The first record is found to agree, and so are the others. -/
theorem verifyAll_cons {text : String} {tree tree' : Tree}
    (hticks : ∀ t, r.ticksFor e t = .ok ticks t)
    (hfirst : verify e ticks r.checkCode (.absolute (out ++ [e.name]))
      { s with out := s.out ++ ("[verify] " ++ e.name ++ "\n") } =
        .ok true { s with tree, out := s.out ++ ("[verify] " ++ e.name ++ "\n") })
    (hrest : verifyAll r (.absolute out) list
      { s with tree, out := s.out ++ ("[verify] " ++ e.name ++ "\n") } =
        .ok true { s with tree := tree', out := text }) :
    verifyAll r (.absolute out) (e :: list) s = .ok true { s with tree := tree', out := text } := by
  refine bind_eq_ok_iff.2 ⟨ticks, s, hticks s, bind_eq_ok_iff.2 ⟨(), _, rfl, ?_⟩⟩
  exact bind_eq_ok_iff.2 ⟨true, _, hfirst, bind_eq_ok_iff.2 ⟨true, _, hrest, rfl⟩⟩

/-- Records that agree are all found to agree. -/
theorem verifyAll_of_recorded (hlist : list ⊆ examples)
    (hnodup : (list.map Example.name).Nodup) (hdirectory : ∀ part ∈ s.directory, IsName part)
    (hout : ∀ part ∈ out, IsName part)
    (hnames : ∀ e ∈ list, NamesAreProper s.tree (home s.directory ++ [e.source]))
    (hclear : ∀ e ∈ list, IsClear s.tree s.directory (out ++ [e.name]) e)
    (h : ∀ e ∈ list, ∃ ticks code report schedule, (∀ t, r.ticksFor e t = .ok ticks t) ∧
      Recorded s (out ++ [e.name]) e ticks code report schedule) :
    ∃ tree, verifyAll r (.absolute out) list s =
      .ok true { s with tree, out := s.out ++ announcement list } := by
  induction list generalizing s with
  | nil =>
    refine ⟨s.tree, ?_⟩
    rw [announcement, String.append_empty]
    rfl
  | cons e list ih =>
    obtain ⟨he, hsubset⟩ := List.cons_subset.1 hlist
    obtain ⟨hname, hnodup⟩ := List.nodup_cons.1 hnodup
    obtain ⟨hfirst, hclear'⟩ := List.forall_mem_cons.1 hclear
    obtain ⟨⟨ticks, code, report, schedule, hticks, hrecorded⟩, h'⟩ := List.forall_mem_cons.1 h
    have hprinted : ChangesAll out [e] (fun _ => [".fresh"]) s
        { s with out := s.out ++ ("[verify] " ++ e.name ++ "\n") } :=
      ⟨rfl, Tree.Keeps.refl _⟩
    have hagrees := hrecorded.of_tree_eq
      (t := { s with out := s.out ++ ("[verify] " ++ e.name ++ "\n") }) rfl rfl
    obtain ⟨tree, hverify, hchanges⟩ := verify_of_recorded
      (s := { s with out := s.out ++ ("[verify] " ++ e.name ++ "\n") }) he hout hfirst hagrees
      r.checkCode
    have hcompared : ChangesAll out [e] (fun _ => [".fresh"]) s
        { s with tree, out := s.out ++ ("[verify] " ++ e.name ++ "\n") } :=
      hprinted.trans (hchanges.all (List.mem_singleton_self e))
    -- the other records have other names
    have hother {e' : Example} (he' : e' ∈ list) : ∀ e'' ∈ [e], e'.name ≠ e''.name := by
      intro e'' he'' heq
      rw [List.mem_singleton.1 he''] at heq
      exact hname (heq ▸ List.mem_map_of_mem he')
    have hsingle : [e] ⊆ examples := List.cons_subset.2 ⟨he, List.nil_subset _⟩
    have hwritten : ∀ e' ∈ [e], [".fresh"] ⊆ writtenNames := fun _ _ => by decide
    -- the comparisons to come find all as it was, but for one directory
    obtain ⟨tree', hrest⟩ := ih (s := { s with tree, out := _ }) hsubset hnodup hdirectory
      (fun e' he' => hcompared.namesAreProper (hsubset he') hsingle hwritten
        (hnames e' (List.mem_cons_of_mem e he')))
      (fun e' he' => (hclear' e' he').of_changes hcompared fun e'' he'' heq =>
        absurd heq (hother he' e'' he''))
      (fun e' he' => by
        obtain ⟨ticks, code, report, schedule, hticks, hrecorded⟩ := h' e' he'
        exact ⟨ticks, code, report, schedule, hticks, hrecorded.of_changes (hsubset he')
          hdirectory (hnames e' (List.mem_cons_of_mem e he')) hcompared hsingle hwritten
            (hother he')⟩)
    have hall := verifyAll_cons hticks hverify hrest
    refine ⟨tree', ?_⟩
    rw [announcement, ← String.append_assoc]
    exact hall

/-! ### Both -/

/-- All names in the session are names of files or directories. -/
structure IsProper (s : Session) : Prop where
  directory : ∀ part ∈ s.directory, IsName part
  entries : ∀ entry ∈ s.tree.entries, ∀ part ∈ entry.1, IsName part

/-- Nothing gets in the way of a comparison when the records are written. -/
theorem isClear_of_changes {directory : Location} (hlist : list ⊆ examples)
    (h : ChangesAll out list Example.recordNames s t)
    (hclear : ∀ e ∈ list, IsClear s.tree directory (out ++ [e.name]) e) :
    ∀ e ∈ list, IsClear t.tree directory (out ++ [e.name]) e := by
  intro e he
  refine (hclear e he).of_changes h fun e' he' heq => ⟨fun hmem => ?_, fun hschedule hmem => ?_⟩
  · exact (of_decide_eq_true (List.mem_filter.1 hmem).2).1 rfl
  · obtain rfl := eq_of_name_eq e (hlist he) e' (hlist he') heq
    have hsome := (of_decide_eq_true (List.mem_filter.1 hmem).2).2 rfl
    rw [hschedule] at hsome
    cases hsome

/-- A comparison ends well if all records are found to agree. -/
theorem perform_of_verifyAll {text : String} {tree : Tree} (hverify : r.verify = true)
    (hpath : recordPath r s = .ok (.absolute out) s) (hexamples : r.examples s = .ok list s)
    (hall : verifyAll r (.absolute out) list s = .ok true { s with tree, out := text }) :
    perform r s = .ok () { s with tree, out := text ++ "[verify] all tests OK\n" } := by
  unfold perform
  rw [hverify]
  exact bind_eq_ok_iff.2 ⟨_, s, hpath, bind_eq_ok_iff.2
    ⟨_, s, hexamples, bind_eq_ok_iff.2 ⟨true, _, hall, rfl⟩⟩⟩

/-- When records have been written, a comparison with the same directory, examples and tick limit
finds no difference, if nothing is in its way. -/
theorem run_verify_of_record {arguments arguments' : List String} (hs : IsProper s)
    (hrequest : requestOf arguments = .ok r) (hrequest' : requestOf arguments' = .ok r')
    (hrecord : r.verify = false) (hverify : r'.verify = true)
    (hsame : r'.directory = r.directory ∧ r'.only = r.only ∧ r'.ticks = r.ticks)
    (hclear : ∀ e ∈ r.selection,
      IsClear s.tree s.directory (r.place s.directory ++ [e.name]) e)
    (hrun : command arguments s = .ok () s') (htree : t.tree = s'.tree)
    (hfrom : t.directory = s'.directory) :
    ∃ tree, Command.run command arguments' t = (.exit 0,
      { t with tree, out := t.out ++ announcement r.selection ++ "[verify] all tests OK\n" }) := by
  obtain ⟨hdirectory, honly, hticks⟩ := hsame
  -- the recording ended well, so all its steps did
  rw [command_eq_ok hrequest] at hrun
  obtain ⟨path, u, hpath, hexamples⟩ := bind_eq_ok_iff.1 hrun
  obtain ⟨rfl, rfl, hpath'⟩ := recordPath_eq_ok hpath
  obtain ⟨list, v, hlist, hrest⟩ := bind_eq_ok_iff.1 hexamples
  obtain ⟨rfl, rfl, hlist'⟩ := examples_eq_ok hlist
  rw [hrecord] at hrest
  have hnames : ∀ e ∈ r.selection, NamesAreProper v.tree (home v.directory ++ [e.source]) := by
    intro e _ name hname
    obtain ⟨entry, hentry, hmem⟩ := Tree.exists_of_mem_sourceNames hname
    exact hs.entries entry hentry name hmem
  obtain ⟨hchanges, hrecorded⟩ := recorded_of_recordAll selection_subset nodup_selection
    hs.directory (isName_place hs.directory) hnames hrest
  -- the records are compared in a session with the tree that is left
  have hall : ChangesAll (r.place v.directory) r.selection Example.recordNames v t :=
    ⟨hfrom.trans hchanges.directory_eq, htree ▸ hchanges.keeps⟩
  have hproper : ∀ e ∈ r.selection, NamesAreProper t.tree (home t.directory ++ [e.source]) :=
    fun e he => hall.namesAreProper (selection_subset he) selection_subset
      (fun e _ => recordNames_subset e) (hnames e he)
  have hclear' : ∀ e ∈ r.selection,
      IsClear t.tree t.directory (r.place v.directory ++ [e.name]) e := by
    rw [hall.directory_eq]
    exact isClear_of_changes selection_subset hall hclear
  have hrecorded' : ∀ e ∈ r.selection, ∃ ticks code report schedule,
      (∀ t, r'.ticksFor e t = .ok ticks t) ∧
        Recorded t (r.place v.directory ++ [e.name]) e ticks code report schedule := by
    intro e he
    have hlimit : r'.ticksFor e = r.ticksFor e := by
      rw [Request.ticksFor, Request.ticksFor, hticks]
    obtain ⟨ticks, code, report, schedule, hticks, hagrees⟩ := hrecorded e he
    rw [hlimit]
    exact ⟨ticks, code, report, schedule, hticks, hagrees.of_tree_eq htree hfrom⟩
  obtain ⟨tree, hverified⟩ := verifyAll_of_recorded selection_subset nodup_selection
    (hall.directory_eq ▸ hs.directory) (isName_place hs.directory) hproper hclear' hrecorded'
  -- the second request names the same place and the same examples
  have hsamePath : recordPath r' = recordPath r := by
    rw [recordPath, recordPath, hdirectory]
  have hsameExamples : r'.examples = r.examples := by
    rw [Request.examples, Request.examples, honly]
  have hperform := perform_of_verifyAll hverify (hsamePath ▸ hpath' t hall.directory_eq)
    (hsameExamples ▸ hlist' t) hverified
  refine ⟨tree, ?_⟩
  rw [Command.run, command_eq_ok hrequest', hperform]

/-! ### An example without a schedule -/

/-- A single record is written. -/
theorem recordAll_singleton (hticks : r.ticksFor e s = .ok ticks s)
    (hrecord : record e ticks r.trace (.absolute (out ++ [e.name])) { s with out := s.out ++
      ("[golden] Generating " ++ e.name ++ " -> " ++ (Files.Path.absolute (out ++ [e.name])).text ++
        "\n") } = .ok () s') : recordAll r (.absolute out) [e] s = .ok () s' := by
  unfold recordAll
  rw [List.forIn_cons]
  refine bind_eq_ok_iff.2 ⟨⟨⟩, s', bind_eq_ok_iff.2 ⟨.yield ⟨⟩, s', ?_, rfl⟩, rfl⟩
  refine bind_eq_ok_iff.2 ⟨ticks, s, hticks, bind_eq_ok_iff.2 ⟨(), _, rfl, ?_⟩⟩
  exact bind_eq_ok_iff.2 ⟨(), s', hrecord, rfl⟩

/-- An example without a schedule is recorded without a trace, step by step. -/
theorem record_of_steps {place : Location} {copied code listing report : String}
    {t₁ t₂ t₃ t₄ t₅ : Session} (hschedule : e.schedule = none)
    (hmake : makeDirectories (.absolute place) s = .ok () t₁)
    (hsource : keepSource (.absolute (home s.directory ++ [e.source])) (.absolute place) t₁ =
      .ok copied t₂)
    (hbuild : build (.absolute (home s.directory ++ [e.source])) t₂ = .ok (code, listing) t₂)
    (hcode : writeInto (.absolute place) "program.asm" code t₂ = .ok () t₃)
    (hlisting : writeInto (.absolute place) "program.hex" listing t₃ = .ok () t₄)
    (hrun : runIn (.absolute place) none ticks e.dump .nowhere t₄ = .ok report t₄)
    (hreport : writeInto (.absolute place) "out.txt" report t₄ = .ok () t₅)
    (hdescription : writeInto (.absolute place) "meta.json" (description e copied ticks) t₅ =
      .ok () s') : record e ticks false (.absolute place) s = .ok () s' := by
  refine bind_eq_ok_iff.2 ⟨_, s, rfl, ?_⟩
  refine bind_eq_ok_iff.2 ⟨none, s, hschedule ▸ rfl, ?_⟩
  refine bind_eq_ok_iff.2 ⟨(), t₁, hmake, ?_⟩
  refine bind_eq_ok_iff.2 ⟨copied, t₂, hsource, ?_⟩
  refine bind_eq_ok_iff.2 ⟨_, t₂, hbuild, ?_⟩
  refine bind_eq_ok_iff.2 ⟨(), t₃, hcode, ?_⟩
  refine bind_eq_ok_iff.2 ⟨(), t₄, hlisting, ?_⟩
  refine bind_eq_ok_iff.2 ⟨report, t₄, hrun, ?_⟩
  exact bind_eq_ok_iff.2 ⟨(), t₅, hreport, hdescription⟩

/-- A session with the source of an example, and with some things that have been left. -/
def withExample (left : List (Location × Node)) : Session where
  tree := ⟨(["examples"], .directory) :: (["examples", "StaticsTest"], .directory) ::
    (["examples", "StaticsTest", "Main.vm"], .file "push constant 7\n".toUTF8) :: left⟩
  directory := []

/-- The example. -/
def statics : Example :=
  { name := "statics", source := "StaticsTest", ticks := 10000, dump := ["261-262"] }

/-- Its source file. -/
def staticsUnit : VM.SourceFile where
  path := .absolute ["examples", "StaticsTest", "Main.vm"]
  bytes := "push constant 7\n".toUTF8

/-- The lines of its code. -/
def staticsLines : List String :=
  match VM.compile [staticsUnit] true false with
  | .ok lines => lines
  | .error _ => []

/-- The words of its code. -/
def staticsWords : Array Int :=
  match Asm.assemble staticsLines with
  | .ok words => words
  | .error _ => #[]

theorem compile_statics : VM.compile [staticsUnit] true false = .ok staticsLines ∧
    Asm.assemble staticsLines = .ok staticsWords := by
  decide +kernel

theorem isUnbroken_statics : ∀ line ∈ staticsLines, IsUnbroken line.toList := by
  refine VM.isUnbroken_text (fun unit hunit => ?_) compile_statics.1 compile_statics.2
  rw [List.mem_singleton.1 hunit]
  decide

/-- Its report after one tick, in which the input of a schedule may come first. -/
def staticsReport (input : String) : String :=
  "SP| " ++ input ++ "\nRAM[261]| 0\nRAM[262]| 0\n"

theorem reports_statics {schedule : Machine.Schedule}
    (hschedule : ∀ event ∈ schedule, 0 ≤ event.address) {report : String}
    (hreport : Machine.report (Machine.Computer.run ⟨staticsWords, schedule, 1⟩
      (.fresh 0)).state.data.ram.values [261, 262] = .ok report) :
    Reports (unlines staticsLines) schedule 1 statics.dump report :=
  reports_of_assemble isUnbroken_statics compile_statics.2 hschedule (fun _ => rfl) (by decide)
    hreport

theorem reports_statics_nil :
    Reports (unlines staticsLines) [] 1 statics.dump (staticsReport "0") :=
  reports_statics (fun _ h => absurd h List.not_mem_nil) (by decide +kernel)

theorem reports_statics_event :
    Reports (unlines staticsLines) [⟨0, 0, 7⟩] 1 statics.dump (staticsReport "7") :=
  reports_statics (by decide) (by decide +kernel)

/-- The source file of the example is found. -/
def FindsStatics (s : Session) : Prop :=
  s.tree.sources s.directory (.absolute ["examples", "StaticsTest"]) =
    .ok ⟨[staticsUnit.path], .absolute ["examples", "StaticsTest", "StaticsTest.asm"], true⟩ ∧
  s.tree.read s.directory staticsUnit.path = .ok staticsUnit.bytes

theorem build_statics (h : FindsStatics s) :
    build (.absolute ["examples", "StaticsTest"]) s =
      .ok (unlines staticsLines, Asm.listing staticsWords.toList) s :=
  build_eq_ok_iff.2 ⟨rfl, _, [staticsUnit], staticsLines, staticsWords, h.1, rfl,
    List.forall_mem_singleton.2 h.2, compile_statics.1, compile_statics.2, rfl, rfl⟩

/-- The place of its record. -/
def staticsPlace : Location :=
  ["golden", "statics"]

/-- The session with the source of the example in its record. -/
def sourceKept (s : Session) : Session :=
  after (keepSource (.absolute ["examples", "StaticsTest"]) (.absolute staticsPlace))
    (after (makeDirectories (.absolute staticsPlace)) s)

/-- The session with a file in the record too. -/
def fileKept (name text : String) (s : Session) : Session :=
  after (writeInto (.absolute staticsPlace) name text) s

/-- The session with the code in the record too. -/
def codeKept (s : Session) : Session :=
  fileKept "program.asm" (unlines staticsLines) (sourceKept s)

/-- The session with the listing in the record too. -/
def listingKept (s : Session) : Session :=
  fileKept "program.hex" (Asm.listing staticsWords.toList) (codeKept s)

/-- The session with the report in the record too. -/
def reportKept (s : Session) : Session :=
  fileKept "out.txt" (staticsReport "0") (listingKept s)

/-- The session with the whole record. -/
def allKept (s : Session) : Session :=
  fileKept "meta.json" (description statics "src" 1) (reportKept s)

/-- A file can be put into the record. -/
def CanKeep (name text : String) (s : Session) : Prop :=
  value? (writeInto (.absolute staticsPlace) name text) s = some ()

theorem CanKeep.eq_ok {name text : String} (h : CanKeep name text s) :
    writeInto (.absolute staticsPlace) name text s = .ok () (fileKept name text s) :=
  eq_ok_of_value? h

/-- All files of the record can be written. -/
def CanRecord (s : Session) : Prop :=
  (s.directory = [] ∧ value? (makeDirectories (.absolute staticsPlace)) s = some () ∧
    value? (keepSource (.absolute ["examples", "StaticsTest"]) (.absolute staticsPlace))
      (after (makeDirectories (.absolute staticsPlace)) s) = some "src") ∧
  FindsStatics (sourceKept s) ∧
  CanKeep "program.asm" (unlines staticsLines) (sourceKept s) ∧
  CanKeep "program.hex" (Asm.listing staticsWords.toList) (codeKept s) ∧
  CanKeep "out.txt" (staticsReport "0") (listingKept s) ∧
  CanKeep "meta.json" (description statics "src" 1) (reportKept s)

instance (name text : String) : DecidablePred (CanKeep name text) :=
  fun _ => inferInstanceAs (Decidable (_ = _))

instance : DecidablePred FindsStatics :=
  fun _ => inferInstanceAs (Decidable (_ ∧ _))

instance : DecidablePred CanRecord :=
  fun _ => inferInstanceAs (Decidable (_ ∧ _))

theorem isName_staticsPlace : ∀ part ∈ staticsPlace, IsName part := by
  decide

theorem record_statics (h : CanRecord s) :
    record statics 1 false (.absolute staticsPlace) s = .ok () (allKept s) := by
  obtain ⟨⟨hdirectory, hmake, hsource⟩, hfinds, hcode, hlisting, hreport, hdescription⟩ := h
  have hfile {name : String} (hname : name ∈ writtenNames) :
      ∀ part ∈ staticsPlace ++ [name], IsName part :=
    isName_concat isName_staticsPlace (isName_writtenNames name hname)
  obtain ⟨-, -, hhas, -⟩ := writeInto_eq_ok (hfile (by decide)) hcode.eq_ok
  obtain ⟨-, -, -, hkeeps⟩ := writeInto_eq_ok (hfile (by decide)) hlisting.eq_ok
  have hrun : runIn (.absolute staticsPlace) none 1 statics.dump .nowhere (listingKept s) =
      .ok (staticsReport "0") (listingKept s) := by
    have hcode : (listingKept s).tree.HasFile (staticsPlace ++ ["program.asm"])
        (Utf8.encode (unlines staticsLines)) :=
      hkeeps.hasFile (fun front hfront hunder => absurd (hunder.trans hfront) (by decide)) hhas
    have hnone : ∀ place ∈ (none : Option Location), place ≠ [] ∧ ∀ part ∈ place, IsName part :=
      fun _ h => nomatch h
    exact runIn_of_reports isName_staticsPlace hnone hcode rfl reports_statics_nil
  refine record_of_steps rfl (eq_ok_of_value? hmake) ?_ ?_ hcode.eq_ok hlisting.eq_ok hrun
    hreport.eq_ok hdescription.eq_ok
  · rw [hdirectory]
    exact eq_ok_of_value? hsource
  · rw [hdirectory]
    exact build_statics hfinds

/-- The request of the recording. -/
def staticsRequest : Request :=
  { only := [some "statics"], ticks := some (some 1) }

theorem requestOf_statics : requestOf ["--only", "statics", "--ticks", "1"] = .ok staticsRequest ∧
    requestOf ["--only", "statics", "--ticks", "1", "--verify", "--check-asm"] =
      .ok { staticsRequest with verify := true, checkCode := true } := by
  decide +kernel

theorem selection_statics : staticsRequest.selection = [statics] := by
  decide

theorem recordPath_statics (hdirectory : s.directory = []) :
    recordPath staticsRequest s = .ok (.absolute ["golden"]) s := by
  have hnul : Tree.hasNul "golden" = false := by decide
  have hpath : ((Files.Path.absolute []).join (.ofText "golden")).dropParents =
      .absolute ["golden"] := by decide
  refine bind_eq_ok_iff.2 ⟨"golden", s, rfl, ?_⟩
  rw [hnul, ← hpath, ← hdirectory]
  rfl

/-- What the recording says. -/
def said (s : Session) : Session :=
  { s with out := s.out ++ ("[golden] Generating statics -> " ++
    (Files.Path.absolute staticsPlace).text ++ "\n") }

theorem command_statics (h : CanRecord (said s)) :
    command ["--only", "statics", "--ticks", "1"] s = .ok () (allKept (said s)) := by
  rw [command_eq_ok requestOf_statics.1]
  refine bind_eq_ok_iff.2 ⟨_, s, recordPath_statics h.1.1, ?_⟩
  refine bind_eq_ok_iff.2 ⟨[statics], s, rfl, ?_⟩
  have hticks : staticsRequest.ticksFor statics s = .ok 1 s := rfl
  exact recordAll_singleton hticks (record_statics h)

theorem isProper_withExample : IsProper (withExample []) where
  directory := fun _ h => absurd h List.not_mem_nil
  entries := by decide

theorem hasRoom_statics {tree : Tree} (hdirectory : tree.lookup (staticsPlace ++ [".fresh"]) = none)
    (hfile : tree.lookup (staticsPlace ++ [".fresh", "program.asm"]) = none) :
    HasRoom tree [] staticsPlace where
  no_file := by
    intro content
    rw [hdirectory]
    exact (Option.some_ne_none _).symm
  no_directory := by
    rw [hfile]
    exact (Option.some_ne_none _).symm
  outside := by decide
  usable := by decide

/-- The example is recorded where nothing has been left, and then compared. -/
theorem run_verify_of_record_statics :
    IsProper (withExample []) ∧
    requestOf ["--only", "statics", "--ticks", "1"] = .ok staticsRequest ∧
    requestOf ["--only", "statics", "--ticks", "1", "--verify", "--check-asm"] =
      .ok { staticsRequest with verify := true, checkCode := true } ∧
    (∀ e ∈ staticsRequest.selection, IsClear (withExample []).tree []
      (staticsRequest.place [] ++ [e.name]) e) ∧
    command ["--only", "statics", "--ticks", "1"] (withExample []) =
      .ok () (allKept (said (withExample []))) ∧
    ∃ tree, Command.run command ["--only", "statics", "--ticks", "1", "--verify", "--check-asm"]
      { allKept (said (withExample [])) with out := "" } = (.exit 0,
        { allKept (said (withExample [])) with
          tree, out := "[verify] statics\n[verify] all tests OK\n" }) := by
  have hclear : ∀ e ∈ staticsRequest.selection, IsClear (withExample []).tree []
      (staticsRequest.place [] ++ [e.name]) e := by
    have hplace : staticsRequest.place [] ++ [statics.name] = staticsPlace := by decide
    rw [selection_statics, List.forall_mem_singleton, hplace]
    exact ⟨hasRoom_statics (by decide) (by decide +kernel), fun _ => by decide +kernel⟩
  have hrun : command ["--only", "statics", "--ticks", "1"] (withExample []) =
      .ok () (allKept (said (withExample []))) :=
    command_statics (by decide +kernel)
  obtain ⟨hrequest, hrequest'⟩ := requestOf_statics
  refine ⟨isProper_withExample, hrequest, hrequest', hclear, hrun, ?_⟩
  have hsaid : "" ++ announcement staticsRequest.selection ++ "[verify] all tests OK\n" =
      "[verify] statics\n[verify] all tests OK\n" := by decide
  rw [← hsaid]
  exact run_verify_of_record isProper_withExample hrequest hrequest' rfl rfl ⟨rfl, rfl, rfl⟩ hclear
    hrun rfl rfl

/-- A session with the source of the example, and with a schedule that has been left in the place of
its record. -/
def withSchedule : Session :=
  withExample [(["golden"], .directory), (["golden", "statics"], .directory),
    (["golden", "statics", "schedule.txt"], .file "0 0 7\n".toUTF8)]

theorem canRecord_withSchedule : CanRecord (said withSchedule) := by
  decide +kernel

/-- The recording leaves the schedule there. -/
theorem hasSchedule_withSchedule :
    HasSchedule (allKept (said withSchedule)).tree
      (takenSchedule (allKept (said withSchedule)).tree staticsPlace) [⟨0, 0, 7⟩] := by
  have hread : (allKept (said withSchedule)).tree.read []
      (.absolute (staticsPlace ++ ["schedule.txt"])) = .ok "0 0 7\n".toUTF8 := by decide
  have hfile := (Tree.read_absolute (isName_concat isName_staticsPlace (by decide))).1 hread
  rw [takenSchedule, hfile.lookup_eq]
  exact ⟨_, hfile, by decide +kernel⟩

/-- The example is compared under that schedule, and so it is found to differ. -/
theorem verify_withSchedule (htree : t.tree = (allKept (said withSchedule)).tree)
    (hdirectory : t.directory = (allKept (said withSchedule)).directory) :
    ∃ t', verify statics 1 true (.absolute (["golden"] ++ [statics.name])) t = .ok false t' := by
  have hexample : statics ∈ examples := by decide
  have hgolden : ∀ part ∈ ["golden"], IsName part := by decide
  have hproper : NamesAreProper (said withSchedule).tree (home [] ++ [statics.source]) := by
    unfold NamesAreProper
    decide +kernel
  have hrecord : record statics 1 false (.absolute (["golden"] ++ [statics.name]))
      (said withSchedule) = .ok () (allKept (said withSchedule)) :=
    record_statics canRecord_withSchedule
  obtain ⟨hchanges, code, report, schedule, hrecorded⟩ := recorded_of_record hexample
    (fun _ h => absurd h List.not_mem_nil) hgolden hproper hrecord
  -- the record is that of a run without a schedule
  obtain ⟨listing, hbuild⟩ := hrecorded.build
  have hfinds : FindsStatics (allKept (said withSchedule)) := by decide +kernel
  rw [hchanges.directory_eq] at hbuild
  have hsame := hbuild.symm.trans (build_statics hfinds)
  injection hsame with hsame
  injection hsame with hcode
  obtain rfl : schedule = [] := hrecorded.schedule_file
  have hreport : report = staticsReport "0" :=
    hrecorded.reports.unique (hcode ▸ reports_statics_nil)
  -- and the comparison runs under the one that has been left
  have hfresh : Reports code [⟨0, 0, 7⟩] 1 statics.dump (staticsReport "7") :=
    hcode ▸ reports_statics_event
  have hroom : HasRoom t.tree t.directory (["golden"] ++ [statics.name]) := by
    rw [htree, hdirectory, hchanges.directory_eq]
    exact hasRoom_statics (by decide) (by decide +kernel)
  obtain ⟨tree, shown, hverify, -⟩ := verify_of_schedule hexample hgolden hroom
    (hrecorded.of_tree_eq htree hdirectory) (htree ▸ hasSchedule_withSchedule) hfresh true
  rw [hreport, decide_eq_false (by decide)] at hverify
  exact ⟨_, hverify⟩

/-- The command ends with an exit code when the example is found to differ. -/
theorem run_of_verify (hdirectory : t.directory = [])
    (hverify : verify statics 1 true (.absolute (["golden"] ++ [statics.name]))
      { t with out := t.out ++ ("[verify] " ++ statics.name ++ "\n") } = .ok false s') :
    (Command.run command ["--only", "statics", "--ticks", "1", "--verify", "--check-asm"] t).1 =
      .exit 1 := by
  have hall : verifyAll { staticsRequest with verify := true, checkCode := true }
      (.absolute ["golden"]) [statics] t = .ok false s' := by
    refine bind_eq_ok_iff.2 ⟨1, t, rfl, ?_⟩
    refine bind_eq_ok_iff.2 ⟨(), _, rfl, ?_⟩
    exact bind_eq_ok_iff.2 ⟨false, s', hverify, rfl⟩
  have hpath : recordPath { staticsRequest with verify := true, checkCode := true } t =
      .ok (.absolute ["golden"]) t := recordPath_statics hdirectory
  have hperform : perform { staticsRequest with verify := true, checkCode := true } t =
      .error (.exit 1) s' := by
    unfold perform
    rw [bind_of_eq_ok hpath, bind_of_eq_ok (show Request.examples _ t = .ok [statics] t from rfl)]
    exact (bind_of_eq_ok hall).trans rfl
  rw [Command.run, command_eq_ok requestOf_statics.2, hperform]

/-- A comparison that follows a recording can find a difference. -/
theorem run_verify_withSchedule :
    command ["--only", "statics", "--ticks", "1"] withSchedule =
      .ok () (allKept (said withSchedule)) ∧
    (Command.run command ["--only", "statics", "--ticks", "1", "--verify", "--check-asm"]
      { allKept (said withSchedule) with out := "" }).1 = .exit 1 := by
  have hdirectory : (allKept (said withSchedule)).directory = [] := by decide
  obtain ⟨t', hverify⟩ := verify_withSchedule (t := { allKept (said withSchedule) with
    out := "" ++ ("[verify] " ++ statics.name ++ "\n") }) rfl rfl
  exact ⟨command_statics canRecord_withSchedule, run_of_verify hdirectory hverify⟩

end HackToolchain.Cli.Golden
