import HackToolchain.Proofs.Text.Lines
import HackToolchain.Proofs.VM.ErrorLocation
import HackToolchain.Proofs.VM.Grammar
import Mathlib.Data.List.Forall2

/-!
# Layout

Of a source text, only the tokens of its lines count.  Whether a command takes its arguments from
its tokens, or is known by its whole text as an arithmetic command is, the commands of two texts
with the same tokens have the same code, or are rejected for the same reason.

* `map_tokens_commandLines`: the commands of a text have the tokens of its lines;
* `Command.Alike.plainCommand`: what is emitted for commands with the same tokens;
* `Generator.addCommands_of_alike`: what becomes of two lists of such commands;
* `isLayout_iff`: a text shows the tokens of its lines, with any blanks between them, with comments
  and empty rows, and with any line ends, and it shows no other words;
* `addSource_of_tokenLines`: texts with the same tokens, such as two layouts of the same rows, are
  compiled alike.
-/

namespace HackToolchain.VM

open Text Emitter

/-! ### Tokens of lines -/

/-- The tokens of those lines of a source text that have any outside of a comment. -/
def tokenLines (source : String) : List (List (List Char)) :=
  ((splitLines source.toList).map fun line => tokens (beforeSlashes line)).filter (· ≠ [])

/-- The commands of a text have the tokens of its lines. -/
theorem map_tokens_commandLines (source : String) :
    (commandLines source).map (fun line => tokens line.text.toList) = tokenLines source := by
  unfold commandLines tokenLines
  generalize splitLines source.toList = lines
  generalize 1 = number
  induction lines generalizing number with
  | nil => rfl
  | cons line lines ih =>
    rw [List.zipIdx_cons, List.map_cons, ← tokens_strip (beforeSlashes line)]
    cases hstrip : strip (beforeSlashes line) with
    | nil =>
      rw [List.filterMap_cons_none (by simp only [hstrip]), List.filter_cons_of_neg (by simp)]
      exact ih (number + 1)
    | cons c cs =>
      have hne : tokens (c :: cs) ≠ [] := by
        rw [← hstrip]
        exact tokens_strip_ne_nil (by rw [hstrip]; exact List.cons_ne_nil c cs)
      rw [List.filterMap_cons_some (by simp only [hstrip]; rfl), List.map_cons, ih (number + 1),
        String.toList_ofList, List.filter_cons_of_pos (by simpa using hne)]

/-! ### Commands with the same tokens -/

/-- Two commands have the same tokens and the same kind, and no blanks around them. -/
structure Command.Alike (c d : Command) : Prop where
  kind : c.kind = d.kind
  tokens : tokens c.text.toList = tokens d.text.toList
  left : strip c.text.toList = c.text.toList
  right : strip d.text.toList = d.text.toList

/-- No blanks stand around a command. -/
theorem strip_of_mem_commandLines {source : String} {line : NumberedLine}
    (h : line ∈ commandLines source) : strip line.text.toList = line.text.toList := by
  obtain ⟨before, after, hsplit⟩ := List.append_of_mem h
  obtain ⟨_, raw, _, -, -, -, rfl⟩ := exists_of_commandLines_eq hsplit
  rw [String.toList_ofList, strip_strip]

theorem alike_command {line line' : NumberedLine}
    (hleft : strip line.text.toList = line.text.toList)
    (hright : strip line'.text.toList = line'.text.toList)
    (htokens : tokens line.text.toList = tokens line'.text.toList) :
    line.command.Alike line'.command := by
  have hkind : kindOf line.text = kindOf line'.text := by
    rw [kindOf, kindOf, htokens]
  exact ⟨congrArg (fun kind => kind.toOption.getD .arithmetic) hkind, htokens, hleft, hright⟩

/-- The commands of two texts with the same tokens are alike. -/
theorem alike_commands {source source' : String} (h : tokenLines source = tokenLines source') :
    List.Forall₂ Command.Alike ((commandLines source).map NumberedLine.command)
      ((commandLines source').map NumberedLine.command) := by
  rw [← map_tokens_commandLines, ← map_tokens_commandLines, ← List.forall₂_eq_eq_eq,
    List.forall₂_map_left_iff, List.forall₂_map_right_iff] at h
  rw [List.forall₂_map_left_iff, List.forall₂_map_right_iff]
  have hright := (List.forall₂_and_left _ _).2 ⟨fun _ => strip_of_mem_commandLines, h.flip⟩
  have hboth := (List.forall₂_and_left _ _).2 ⟨fun _ => strip_of_mem_commandLines, hright.flip⟩
  exact hboth.imp fun _ _ ⟨hleft, hright, htokens⟩ => alike_command hleft hright htokens

/-- Two errors are the same, up to the blanks in the text of an arithmetic command that is shown. -/
inductive EmitError.Alike : EmitError → EmitError → Prop
  /-- The same error. -/
  | refl (error : EmitError) : EmitError.Alike error error
  /-- Two texts that are no arithmetic commands. -/
  | operation {text text' : String} (h : tokens text.toList = tokens text'.toList) :
      EmitError.Alike (.operation text) (.operation text')

theorem EmitError.Alike.faultClass_eq {error error' : EmitError} (h : error.Alike error') :
    error.faultClass = error'.faultClass := by
  cases h <;> rfl

/-- A command that is known by its text is known by its tokens. -/
theorem ofName?_of_tokens {text text' : String} (htokens : tokens text.toList = tokens text'.toList)
    (hstrip : strip text'.toList = text'.toList) {op : Operation}
    (h : Operation.ofName? text = some op) : Operation.ofName? text' = some op := by
  have hname := List.find?_some h
  rw [beq_iff_eq] at hname
  rw [← hname, op.tokens_name] at htokens
  have htext : text' = op.name :=
    String.toList_injective (eq_of_tokens_eq_singleton hstrip htokens.symm)
  rw [htext, Operation.ofName?_name]

namespace Command.Alike

variable {c d : Command}

theorem ofName?_eq (h : c.Alike d) : Operation.ofName? c.text = Operation.ofName? d.text := by
  cases hc : Operation.ofName? c.text with
  | some op => exact (ofName?_of_tokens h.tokens h.right hc).symm
  | none =>
    cases hd : Operation.ofName? d.text with
    | none => rfl
    | some op =>
      rw [ofName?_of_tokens h.tokens.symm h.left hd] at hc
      cases hc

theorem argumentOf_eq (h : c.Alike d) (hkind : d.kind ≠ .arithmetic) :
    argumentOf c = argumentOf d := by
  unfold argumentOf Command.argument
  rw [h.kind, h.tokens]
  split
  · contradiction
  · rfl
  · rfl

theorem countOf_eq (h : c.Alike d) : countOf c = countOf d := by
  unfold countOf Command.count
  rw [h.kind, h.tokens]

/-- For commands with the same tokens the same is emitted, unless both are arithmetic commands that
are not known. -/
theorem plainCommand (h : c.Alike d) :
    Emitter.plainCommand c = Emitter.plainCommand d ∨
      Emitter.plainCommand c = fail (.operation c.text) ∧
        Emitter.plainCommand d = fail (.operation d.text) := by
  by_cases hkind : d.kind = .arithmetic
  · have harithmetic {c : Command} (hkind : c.kind = .arithmetic) :
        Emitter.plainCommand c = arithmetic c.text := by
      simp only [Emitter.plainCommand, argumentOf, Command.argument, hkind, Emitter.ofExcept,
        bind_eq, done_andThen]
    rw [harithmetic hkind, harithmetic (h.kind.trans hkind), arithmetic, arithmetic, h.ofName?_eq]
    cases Operation.ofName? d.text with
    | none => exact .inr ⟨rfl, rfl⟩
    | some op => exact .inl rfl
  · left
    unfold Emitter.plainCommand
    rw [h.kind, h.argumentOf_eq hkind, h.countOf_eq]

end Command.Alike

/-! ### Generators -/

namespace Generator

variable {g g' : Generator}

theorem command_false (c : Command) : Emitter.command false c = Emitter.plainCommand c := by
  rw [Emitter.command, commandComment, if_neg Bool.false_ne_true]
  exact done_andThen () _

/-- Commands with the same tokens are both added, with the same code, or both rejected. -/
theorem addCommand_of_alike (hcomments : g.comments = false) {c d : Command} (h : c.Alike d) :
    ∃ g', g'.comments = false ∧
      (g.addCommand c = (.ok (), g') ∧ g.addCommand d = (.ok (), g') ∨
        ∃ error error', g.addCommand c = (.error error, g') ∧
          g.addCommand d = (.error error', g') ∧ error.Alike error') := by
  unfold addCommand
  rw [hcomments, command_false, command_false]
  rcases h.plainCommand with hsame | ⟨hc, hd⟩
  · rw [hsame]
    refine ⟨(g.add (plainCommand d)).2, hcomments, ?_⟩
    rcases hadd : g.add (plainCommand d) with ⟨error | ⟨⟩, g'⟩
    · exact .inr ⟨error, error, rfl, rfl, .refl error⟩
    · exact .inl ⟨rfl, rfl⟩
  · rw [hc, hd]
    refine ⟨(g.add (fail (α := Unit) (.operation c.text))).2, hcomments, .inr ?_⟩
    exact ⟨_, _, rfl, rfl, .operation h.tokens⟩

/-- Of a list of commands those in front of the one at index `i` are added, and that one is
rejected. -/
def RejectsIn (g : Generator) (cs : List Command) (i : Nat) (error : EmitError)
    (g' : Generator) : Prop :=
  ∃ before c after g₁, cs = before ++ c :: after ∧ before.length = i ∧
    g.addCommands before = (.ok (), g₁) ∧ g₁.addCommand c = (.error error, g')

theorem RejectsIn.cons {c : Command} {cs : List Command} {i : Nat} {error : EmitError}
    {g₁ : Generator} (hc : g.addCommand c = (.ok (), g₁)) (h : g₁.RejectsIn cs i error g') :
    g.RejectsIn (c :: cs) (i + 1) error g' := by
  obtain ⟨before, d, after, g₂, rfl, rfl, hbefore, hd⟩ := h
  refine ⟨c :: before, d, after, g₂, rfl, rfl, ?_, hd⟩
  rw [addCommands, hc]
  exact hbefore

theorem addCommands_of_rejectsIn {cs : List Command} {i : Nat} {error : EmitError}
    (h : g.RejectsIn cs i error g') : ∃ c, g.addCommands cs = (.error (c, error), g') := by
  obtain ⟨before, c, after, g₁, rfl, -, hbefore, hc⟩ := h
  refine ⟨c, ?_⟩
  induction before generalizing g with
  | nil =>
    injection hbefore with _ hg
    rw [List.nil_append, addCommands, hg, hc]
  | cons d before ih =>
    rw [addCommands] at hbefore
    rw [List.cons_append, addCommands]
    rcases hd : g.addCommand d with ⟨fault | ⟨⟩, g₂⟩
    · rw [hd] at hbefore
      cases hbefore
    · rw [hd] at hbefore
      exact ih hbefore

/-- Lists of commands with the same tokens are both added, or both rejected at the same place. -/
theorem addCommands_of_alike (hcomments : g.comments = false) {cs ds : List Command}
    (h : List.Forall₂ Command.Alike cs ds) :
    (∃ g', g.addCommands cs = (.ok (), g') ∧ g.addCommands ds = (.ok (), g')) ∨
      ∃ i error error' g', g.RejectsIn cs i error g' ∧ g.RejectsIn ds i error' g' ∧
        error.Alike error' := by
  induction h generalizing g with
  | nil => exact .inl ⟨g, rfl, rfl⟩
  | @cons c d cs ds hcd _ ih =>
    obtain ⟨g₁, hcomments, ⟨hc, hd⟩ | ⟨error, error', hc, hd, halike⟩⟩ :=
      addCommand_of_alike hcomments hcd
    · rcases ih hcomments with ⟨g', hcs, hds⟩ | ⟨i, error, error', g', hcs, hds, halike⟩
      · refine .inl ⟨g', ?_, ?_⟩
        · rw [addCommands, hc]
          exact hcs
        · rw [addCommands, hd]
          exact hds
      · exact .inr ⟨i + 1, error, error', g', hcs.cons hc, hds.cons hd, halike⟩
    · exact .inr ⟨0, error, error', g₁, ⟨[], c, cs, g, rfl, rfl, rfl, hc⟩,
        ⟨[], d, ds, g, rfl, rfl, rfl, hd⟩, halike⟩

/-- Adding a source text ends at its command with index `i`, which is rejected.  The generator keeps
what has been added until then. -/
def RejectsAt (g : Generator) (source : String) (i : Nat) (error : EmitError) (g' : Generator) :
    Prop :=
  ∃ cs, readCommands source = .ok cs ∧ g.RejectsIn cs i error g' ∧
    g.addSource source = (.error error, g')

/-- Two source texts are both added, with the same code and scope, or both rejected at commands with
the same index, for the same reason and with the same code and scope until then. -/
inductive AddsAlike (g : Generator) (source source' : String) : Prop
  /-- Both are added. -/
  | added {g' : Generator} (left : g.addSource source = (.ok (), g'))
      (right : g.addSource source' = (.ok (), g'))
  /-- Both are rejected. -/
  | rejected {i : Nat} {error error' : EmitError} {g' : Generator}
      (left : g.RejectsAt source i error g') (right : g.RejectsAt source' i error' g')
      (faultClass_eq : error.faultClass = error'.faultClass) (alike : error.Alike error')

theorem addSource_of_addCommands {source : String} {cs : List Command}
    (hcs : readCommands source = .ok cs) (h : g.addCommands cs = (.ok (), g')) :
    g.addSource source = (.ok (), g') := by
  simp only [addSource, hcs, h]

theorem RejectsIn.rejectsAt {source : String} {cs : List Command} {i : Nat} {error : EmitError}
    (h : g.RejectsIn cs i error g') (hcs : readCommands source = .ok cs) :
    g.RejectsAt source i error g' := by
  obtain ⟨c, hc⟩ := addCommands_of_rejectsIn h
  exact ⟨cs, hcs, h, by simp only [addSource, hcs, hc]⟩

/-- Texts with the same tokens are compiled alike. -/
theorem addsAlike_of_tokenLines_eq (hcomments : g.comments = false) {source source' : String}
    (h : tokenLines source = tokenLines source') : g.AddsAlike source source' := by
  rcases addCommands_of_alike hcomments (alike_commands h) with
    ⟨g', hcs, hds⟩ | ⟨i, error, error', g', hcs, hds, halike⟩
  · exact .added (addSource_of_addCommands (readCommands_eq source) hcs)
      (addSource_of_addCommands (readCommands_eq source') hds)
  · exact .rejected (hcs.rejectsAt (readCommands_eq source))
      (hds.rejectsAt (readCommands_eq source')) halike.faultClass_eq halike

end Generator

/-! ### Layouts -/

/-- Words with blanks around them, and between any two of them. -/
inductive Spaced : List (List Char) → List Char → Prop
  /-- There is no word. -/
  | nil {gap : List Char} (hgap : ∀ c ∈ gap, isBlank c = true) : Spaced [] gap
  /-- A word in front of others. -/
  | cons {gap word rest : List Char} {words : List (List Char)}
      (hgap : ∀ c ∈ gap, isBlank c = true) (hword : IsToken word)
      (hstart : ∀ c ∈ rest.head?, isBlank c = true) (hrest : Spaced words rest) :
      Spaced (word :: words) (gap ++ (word ++ rest))

/-- Words and blanks in a row, with a comment behind them or without one. -/
inductive IsRow : List (List Char) → List Char → Prop
  /-- There is no comment. -/
  | plain {words : List (List Char)} {code : List Char} (hcode : Spaced words code) :
      IsRow words code
  /-- There is a comment. -/
  | commented {words : List (List Char)} {code : List Char} (hcode : Spaced words code)
      (hlast : code.getLast? ≠ some '/') (comment : List Char) :
      IsRow words (code ++ '/' :: '/' :: comment)

/-- A text shows lists of words in rows, among which there may be others without words. -/
def IsLayout (lines : List (List (List Char))) (cs : List Char) : Prop :=
  ∃ words rows, Rows rows cs ∧ List.Forall₂ IsRow words rows ∧ lines = words.filter (· ≠ [])

theorem slash_not_blank : isBlank '/' = false := by decide

theorem Spaced.isPlain {words : List (List Char)} {cs : List Char} (h : Spaced words cs) :
    IsPlain cs := by
  have hslash {gap : List Char} (hgap : ∀ c ∈ gap, isBlank c = true) : '/' ∉ gap := by
    intro hmem
    have hblank := hgap '/' hmem
    rw [slash_not_blank] at hblank
    cases hblank
  induction h with
  | nil hgap => exact isPlain_of_not_mem (hslash hgap)
  | cons hgap hword hstart _ ih =>
    refine (isPlain_of_not_mem (hslash hgap)).append
      (hword.isPlain.append ih (.inr fun hhead => ?_))
      (.inl fun hlast => hslash hgap (List.mem_of_mem_getLast? hlast))
    have hblank := hstart '/' hhead
    rw [slash_not_blank] at hblank
    cases hblank

theorem Spaced.tokens_eq {words : List (List Char)} {cs : List Char} (h : Spaced words cs) :
    tokens cs = words := by
  induction h with
  | nil hgap => exact tokens_eq_nil_iff.2 hgap
  | cons hgap hword hstart _ ih =>
    rw [tokens_append_of_blank hgap, tokens_append hword.ne_nil hword.not_blank hstart, ih]

theorem IsRow.tokens_eq {words : List (List Char)} {row : List Char} (h : IsRow words row) :
    tokens (beforeSlashes row) = words := by
  cases h with
  | plain hcode => rw [beforeSlashes_eq_self hcode.isPlain, hcode.tokens_eq]
  | commented hcode hlast => rw [beforeSlashes_append hcode.isPlain hlast, hcode.tokens_eq]

/-- A text without a comment shows its tokens. -/
theorem spaced_tokens {cs : List Char} (h : IsPlain cs) : Spaced (tokens cs) cs := by
  induction hlength : cs.length using Nat.strong_induction_on generalizing cs with
  | _ n ih =>
    obtain ⟨gap, rest, rfl, hgap, hrest⟩ := exists_split (!isBlank ·) cs
    simp only [Bool.not_eq_false', Bool.not_eq_true'] at hgap hrest
    rw [tokens_append_of_blank hgap]
    obtain ⟨word, rest, rfl, hword, hstart⟩ := exists_split isBlank rest
    cases word with
    | nil =>
      -- nothing but blanks
      cases rest with
      | nil =>
        simp only [List.append_nil]
        exact .nil hgap
      | cons c rest => exact absurd ((hstart c rfl).symm.trans (hrest c rfl)) (by decide)
    | cons w ws =>
      have htoken : IsToken (w :: ws) := ⟨List.cons_ne_nil w ws, hword,
        h.of_isInfix ⟨gap, rest, List.append_assoc _ _ _⟩⟩
      rw [tokens_append htoken.ne_nil hword hstart]
      refine .cons hgap htoken hstart (ih rest.length ?_ (h.of_isInfix ?_) rfl)
      · simp only [List.length_append, List.length_cons] at hlength
        omega
      · exact ((List.suffix_append _ _).trans (List.suffix_append _ _)).isInfix

/-- A row shows its tokens, with the comment that it may have. -/
theorem isRow_tokens (row : List Char) : IsRow (tokens (beforeSlashes row)) row := by
  have hcode := spaced_tokens (isPlain_beforeSlashes row)
  rcases beforeSlashes_cases row with hsame | ⟨comment, hsplit, hlast⟩
  · rw [hsame] at hcode ⊢
    exact .plain hcode
  · conv_rhs => rw [hsplit]
    exact .commented hcode hlast comment

/-- A text shows its tokens, and no other words. -/
theorem isLayout_iff {lines : List (List (List Char))} {source : String} :
    IsLayout lines source.toList ↔ tokenLines source = lines := by
  constructor
  · rintro ⟨words, rows, hrows, hwords, rfl⟩
    have htokens : rows.map (fun row => tokens (beforeSlashes row)) = words := by
      rw [← List.forall₂_eq_eq_eq, List.forall₂_map_left_iff]
      exact hwords.flip.imp fun _ _ hrow => hrow.tokens_eq
    rw [tokenLines, hrows.splitLines_eq, htokens]
  · rintro rfl
    refine ⟨_, splitLines source.toList, rows_splitLines _, ?_, rfl⟩
    rw [List.forall₂_map_left_iff]
    exact List.forall₂_same.2 fun row _ => isRow_tokens row

/-- Texts with the same tokens are compiled alike as long as no comments are wanted in the code:
both are added, with the same code and scope, or both are rejected at commands with the same index.
So are any two texts that show the same words, however they lay them out. -/
theorem addSource_of_tokenLines {g : Generator} (hcomments : g.comments = false) :
    (∀ source source', tokenLines source = tokenLines source' → g.AddsAlike source source') ∧
      ∀ lines source source', IsLayout lines source.toList → IsLayout lines source'.toList →
        g.AddsAlike source source' :=
  ⟨fun _ _ h => Generator.addsAlike_of_tokenLines_eq hcomments h, fun _ _ _ h h' =>
    Generator.addsAlike_of_tokenLines_eq hcomments
      ((isLayout_iff.1 h).trans (isLayout_iff.1 h').symm)⟩

/-- Two commands, the second of which is rejected. -/
def tidyText : String :=
  "push constant 7\nadd it\n"

/-- Another text with these words. -/
def looseText : String :=
  "// none\u2028\t push\u00A0constant  7//7\r\n\r\nadd\tit "

theorem addSource_of_tokenLines_looseText :
    tokenLines tidyText =
      [["push".toList, "constant".toList, "7".toList], ["add".toList, "it".toList]] ∧
    IsLayout (tokenLines tidyText) looseText.toList ∧
    Generator.AddsAlike {} tidyText looseText ∧
    (Generator.addSource tidyText {}).1 = .error (.operation "add it") ∧
    (Generator.addSource looseText {}).1 = .error (.operation "add\tit") := by
  have htokens : tokenLines tidyText = tokenLines looseText := by
    decide +kernel
  exact ⟨by decide +kernel, isLayout_iff.2 htokens.symm,
    (addSource_of_tokenLines rfl).1 tidyText looseText htokens, by decide +kernel,
    by decide +kernel⟩

end HackToolchain.VM
