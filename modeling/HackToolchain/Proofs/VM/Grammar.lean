import HackToolchain.Proofs.Text.Token
import HackToolchain.Proofs.VM.Instruction
import HackToolchain.VM.Program

/-!
# The grammar of commands

Which texts are commands that code is emitted for, said without the emitters: an operator that
stands alone, or a keyword with arguments that its kind takes (`IsCommand`).  A text that is none
stops its emitter before any code of it, so that what the generator holds stays as it was but for
the comment that shows the command.  The error is one of range if the only fault is that a constant
or an index is too great (`IsOutOfRange`).

* `Emitter.outcome_arithmetic`, `Emitter.outcome_plainCommand`: what becomes of a command of either
  form;
* `addCommand_ofText`: the two ways in which adding a command to the code can end.
-/

namespace HackToolchain.VM

open Text

/-! ### The grammar -/

/-- The token consists of digits and is the numeral of `n`. -/
def IsCount (token : List Char) (n : Int) : Prop :=
  token.all isDigit = true ∧ readDecimal (String.ofList token) = .ok n

/-- The arguments begin with a name and the numeral of `n`. -/
def HasNameAndCount (args : List (List Char)) (name : List Char) (n : Int) : Prop :=
  ∃ token rest, args = name :: token :: rest ∧ IsCount token n

/-- The segment has a constant or a cell of the given index. -/
def Segment.Admits : Segment → Int → Prop
  | .constant, index => index ≤ 32767
  | .temp, index => index ≤ 7
  | .pointer, index => index ≤ 1
  | _, _ => True

/-- The kind of command takes the arguments, which are the tokens behind its keyword.  Tokens behind
those that it needs do not count. -/
def Kind.Takes (kind : Kind) (args : List (List Char)) : Prop :=
  match kind with
  | .arithmetic => False
  | .push => ∃ (segment : Segment) (index : Int),
      HasNameAndCount args segment.name.toList index ∧ segment.Admits index
  | .pop => ∃ (segment : Segment) (index : Int),
      HasNameAndCount args segment.name.toList index ∧ segment ≠ .constant ∧ segment.Admits index
  | .label | .goto | .ifGoto => args ≠ []
  | .function | .call => ∃ name n, HasNameAndCount args name n
  | .ret => True

/-- The kind of command would take the arguments if the segment admitted the index. -/
def Kind.Exceeds (kind : Kind) (args : List (List Char)) : Prop :=
  match kind with
  | .push => ∃ (segment : Segment) (index : Int),
      HasNameAndCount args segment.name.toList index ∧ ¬ segment.Admits index
  | .pop => ∃ (segment : Segment) (index : Int),
      HasNameAndCount args segment.name.toList index ∧ segment ≠ .constant ∧ ¬ segment.Admits index
  | _ => False

/-- The text is a command. -/
inductive IsCommand (text : List Char) : Prop
  /-- An operator and nothing else, up to blanks around it. -/
  | operation (op : Operation) (htext : strip text = op.name.toList)
  /-- A keyword and arguments that its kind takes. -/
  | keyword (kind : Kind) (args : List (List Char))
      (htokens : tokens text = kind.name.toList :: args) (hargs : kind.Takes args)

/-- The text would be a command if a number in it were not too great. -/
def IsOutOfRange (text : List Char) : Prop :=
  ∃ (kind : Kind) (args : List (List Char)),
    tokens text = kind.name.toList :: args ∧ kind.Exceeds args

/-! ### Kinds of commands -/

theorem HasNameAndCount.unique {args : List (List Char)} {name name' : List Char} {n n' : Int}
    (h : HasNameAndCount args name n) (h' : HasNameAndCount args name' n') :
    name = name' ∧ n = n' := by
  obtain ⟨token, rest, rfl, -, hread⟩ := h
  obtain ⟨token', rest', heq, -, hread'⟩ := h'
  injection heq with hname heq
  injection heq with htoken _
  rw [← htoken, hread] at hread'
  injection hread' with hn
  exact ⟨hname, hn⟩

/-- Of the arguments that begin with the name of a segment and a number, something holds for some
segment and number if and only if it holds for these. -/
theorem HasNameAndCount.exists_iff {args : List (List Char)} {segment : Segment} {index : Int}
    (h : HasNameAndCount args segment.name.toList index) (p : Segment → Int → Prop) :
    (∃ (segment : Segment) (index : Int),
      HasNameAndCount args segment.name.toList index ∧ p segment index) ↔ p segment index := by
  constructor
  · rintro ⟨other, n, hargs, hp⟩
    obtain ⟨hname, rfl⟩ := h.unique hargs
    have hsegment : some segment = some other := by
      rw [← segment.ofName?_name, String.toList_inj.1 hname, other.ofName?_name]
    injection hsegment with hsegment
    rwa [hsegment]
  · exact fun hp => ⟨segment, index, h, hp⟩

/-- A count is not negative and has a numeral. -/
theorem HasNameAndCount.bounds {args : List (List Char)} {name : List Char} {n : Int}
    (h : HasNameAndCount args name n) : 0 ≤ n ∧ n.natAbs < numeralBound := by
  obtain ⟨token, rest, -, hdigits, hread⟩ := h
  refine ⟨readDecimal_nonneg ?_ hread, natAbs_lt_numeralBound_of_readDecimal hread⟩
  rwa [String.toList_ofList]

/-- The size of a frame has a numeral if the number of arguments is shorter than one may be. -/
theorem HasNameAndCount.frame_lt {args : List (List Char)} {name : List Char} {n : Int}
    (h : HasNameAndCount args name n)
    (hshort : ∀ token rest, args = name :: token :: rest → token.all isDigit = true →
      token.length < maxDigits) : (Code.frameCells + n).natAbs < numeralBound := by
  obtain ⟨token, rest, hargs, hdigits, hread⟩ := h
  have hlength := hshort token rest hargs hdigits
  rw [← String.toList_ofList (l := token)] at hlength
  exact natAbs_add_lt_numeralBound_of_readDecimal hread hlength (by decide)

/-- The token that tells the kind of a command with a keyword is the keyword. -/
theorem Kind.name_ofToken {token : List Char}
    (h : Kind.ofToken (String.ofList token) ≠ .arithmetic) :
    (Kind.ofToken (String.ofList token)).name.toList = token := by
  unfold Kind.ofToken at h ⊢
  cases hfind : Kind.keywords.find? (·.name == String.ofList token) with
  | none =>
    rw [hfind] at h
    exact absurd rfl h
  | some kind =>
    have hname := List.find?_some hfind
    rw [beq_iff_eq] at hname
    rw [Option.getD_some, hname, String.toList_ofList]

theorem Kind.ofToken_name_of_ne {kind : Kind} (h : kind ≠ .arithmetic) :
    Kind.ofToken kind.name = kind := by
  refine Kind.ofToken_name ?_
  cases kind <;> first | exact absurd rfl h | decide

theorem Kind.Takes.ne_arithmetic {kind : Kind} {args : List (List Char)} (h : kind.Takes args) :
    kind ≠ .arithmetic := by
  rintro rfl
  exact h

theorem Kind.Exceeds.ne_arithmetic {kind : Kind} {args : List (List Char)} (h : kind.Exceeds args) :
    kind ≠ .arithmetic := by
  rintro rfl
  exact h

/-- Arguments with an index that the segment does not admit are not taken. -/
theorem Kind.Exceeds.not_takes {kind : Kind} {args : List (List Char)} (h : kind.Exceeds args) :
    ¬ kind.Takes args := by
  intro htakes
  cases kind with
  | push =>
    obtain ⟨segment, index, hargs, hindex⟩ := h
    exact hindex ((hargs.exists_iff _).1 htakes)
  | pop =>
    obtain ⟨segment, index, hargs, -, hindex⟩ := h
    exact hindex ((hargs.exists_iff fun segment index =>
      segment ≠ .constant ∧ segment.Admits index).1 htakes).2
  | _ => exact h

theorem Operation.tokens_name (op : Operation) : tokens op.name.toList = [op.name.toList] := by
  cases op <;> rfl

theorem Operation.ofToken_name (op : Operation) : Kind.ofToken op.name = .arithmetic := by
  cases op <;> decide

section

variable {text first : List Char} {args : List (List Char)}

/-- The keyword and the arguments of a text are told by its tokens. -/
theorem exists_keyword_iff (htokens : tokens text = first :: args)
    (p : Kind → List (List Char) → Prop) (hp : ∀ kind args, p kind args → kind ≠ .arithmetic) :
    (∃ (kind : Kind) (args : List (List Char)),
      tokens text = kind.name.toList :: args ∧ p kind args) ↔
      p (Kind.ofToken (String.ofList first)) args := by
  constructor
  · rintro ⟨kind, _, hkeyword, hargs⟩
    rw [htokens] at hkeyword
    injection hkeyword with hname hrest
    rwa [hname, String.ofList_toList, Kind.ofToken_name_of_ne (hp _ _ hargs), hrest]
  · exact fun hargs => ⟨_, args, by rw [htokens, Kind.name_ofToken (hp _ _ hargs)], hargs⟩

/-- A text that begins with no keyword is a command if it is an operator. -/
theorem isCommand_iff_of_arithmetic (htokens : tokens text = first :: args)
    (hfirst : Kind.ofToken (String.ofList first) = .arithmetic) :
    IsCommand text ↔ ∃ op : Operation, strip text = op.name.toList := by
  constructor
  · rintro (⟨op, htext⟩ | ⟨kind, args, hkeyword, hargs⟩)
    · exact ⟨op, htext⟩
    · have htakes := (exists_keyword_iff htokens Kind.Takes fun _ _ => Kind.Takes.ne_arithmetic).1
        ⟨kind, args, hkeyword, hargs⟩
      exact absurd hfirst htakes.ne_arithmetic
  · rintro ⟨op, htext⟩
    exact .operation op htext

/-- A text that begins with a keyword is a command if its kind takes the arguments. -/
theorem isCommand_iff_of_keyword (htokens : tokens text = first :: args)
    (hfirst : Kind.ofToken (String.ofList first) ≠ .arithmetic) :
    IsCommand text ↔ (Kind.ofToken (String.ofList first)).Takes args := by
  rw [← exists_keyword_iff htokens Kind.Takes fun _ _ => Kind.Takes.ne_arithmetic]
  constructor
  · rintro (⟨op, htext⟩ | ⟨kind, args, hkeyword, hargs⟩)
    · rw [← tokens_strip, htext, op.tokens_name] at htokens
      injection htokens with hname
      rw [← hname, String.ofList_toList, op.ofToken_name] at hfirst
      exact absurd rfl hfirst
    · exact ⟨kind, args, hkeyword, hargs⟩
  · rintro ⟨kind, args, hkeyword, hargs⟩
    exact .keyword kind args hkeyword hargs

/-- A number in a text can be out of range only if the text begins with a keyword. -/
theorem isOutOfRange_iff (htokens : tokens text = first :: args) :
    IsOutOfRange text ↔ (Kind.ofToken (String.ofList first)).Exceeds args :=
  exists_keyword_iff htokens Kind.Exceeds fun _ _ => Kind.Exceeds.ne_arithmetic

/-- A text with a number out of range is no command. -/
theorem IsOutOfRange.not_isCommand (h : IsOutOfRange text) : ¬ IsCommand text := by
  have hrange := h
  obtain ⟨kind, args, htokens, -⟩ := h
  rw [isOutOfRange_iff htokens] at hrange
  rw [isCommand_iff_of_keyword htokens hrange.ne_arithmetic]
  exact hrange.not_takes

end

/-! ### Errors -/

/-- What an error is about. -/
inductive FaultClass where
  /-- A number that is out of range. -/
  | index
  /-- Another fault of the text. -/
  | value
  /-- An argument that commands of the kind do not have. -/
  | usage
  /-- A fault of the compiler. -/
  | internal
  deriving DecidableEq, Repr

/-- What an error is about. -/
def EmitError.faultClass : EmitError → FaultClass
  | .index .. | .command .blank => .index
  | .command .noArgument | .command (.noCount _) => .usage
  | .notKnown _ | .noKind => .internal
  | _ => .value

/-- What becomes of a command in a scope: code, if the command takes its arguments, and otherwise an
error in front of all code, which is about a number out of range if the arguments exceed it. -/
inductive Outcome (takes exceeds : Prop) (s : Scope) : Emission Unit → Prop
  /-- There is code. -/
  | emitted (lines : List Line) (s' : Scope) (htakes : takes) :
      Outcome takes exceeds s ⟨lines, s', .ok ()⟩
  /-- A number is out of range. -/
  | exceeded {error : EmitError} (htakes : ¬ takes) (hexceeds : exceeds)
      (herror : error.faultClass = .index) : Outcome takes exceeds s ⟨[], s, .error error⟩
  /-- Something else is wrong. -/
  | refused {error : EmitError} (htakes : ¬ takes) (hexceeds : ¬ exceeds)
      (herror : error.faultClass = .value) : Outcome takes exceeds s ⟨[], s, .error error⟩

/-! ### Emitters that succeed -/

namespace Emitter

variable {α β : Type} {s : Scope}

/-- The emitter gives a value in the scope. -/
def Succeeds (x : Emitter α) (s : Scope) : Prop :=
  ∃ lines s' a, x s = ⟨lines, s', .ok a⟩

theorem succeeds_done (a : α) : (done a).Succeeds s :=
  ⟨[], s, a, rfl⟩

theorem succeeds_statements (code : List Asm.Statement) : (statements code).Succeeds s :=
  ⟨_, s, (), rfl⟩

theorem succeeds_scope : scope.Succeeds s :=
  ⟨[], s, s, rfl⟩

theorem Succeeds.andThen {x : Emitter α} {f : α → Emitter β} (hx : x.Succeeds s)
    (hf : ∀ a s', (f a).Succeeds s') : (andThen x f).Succeeds s := by
  obtain ⟨lines, s', a, hx⟩ := hx
  obtain ⟨more, s'', b, hf⟩ := hf a s'
  exact ⟨lines ++ more, s'', b, andThen_eq_ok_iff.2 ⟨_, _, _, _, hx, hf, rfl⟩⟩

theorem numeral_eq_done {n : Int} (h : n.natAbs < numeralBound) :
    numeral n = done (toString n) := by
  rw [numeral, writeNumeral_of_lt h, ofExcept]

theorem checkNumeral_eq_done {n : Int} (h : n.natAbs < numeralBound) :
    checkNumeral n = done () := by
  rw [checkNumeral, numeral_eq_done h, bind_eq, done_andThen, pure_eq]

theorem nextLabel_andThen (f : Int → Emitter α) :
    andThen nextLabel f s = f s.labelsUsed s.afterLabel := rfl

theorem succeeds_twice (xs ys : List Asm.Statement) :
    (andThen (statements xs) fun _ => statements ys).Succeeds s :=
  (succeeds_statements xs).andThen fun _ _ => succeeds_statements ys

/-- An operation succeeds while labels can be numbered. -/
theorem succeeds_operation (op : Operation) (h : s.labelsUsed.natAbs < numeralBound) :
    (operation op).Succeeds s := by
  cases op with
  | add | sub | and | or => exact succeeds_twice _ _
  | neg | not => exact succeeds_statements _
  | eq | gt | lt =>
    rw [operation, compare, bind_eq, Succeeds, nextLabel_andThen, numeral_eq_done h, bind_eq,
      done_andThen]
    exact succeeds_statements _

/-- A call succeeds while labels can be numbered, if the size of its frame has a numeral. -/
theorem succeeds_call (name : String) {n : Int} (h : s.labelsUsed.natAbs < numeralBound)
    (hn : (Code.frameCells + n).natAbs < numeralBound) : (call name n).Succeeds s := by
  rw [call, bind_eq, Succeeds, nextLabel_andThen, numeral_eq_done h, bind_eq, done_andThen]
  refine (succeeds_statements _).andThen fun _ _ => (succeeds_statements _).andThen fun _ _ => ?_
  rw [checkNumeral_eq_done hn, bind_eq, done_andThen]
  exact (succeeds_statements _).andThen fun _ _ => succeeds_twice _ _

theorem succeeds_function (name : String) (n : Int) : (function name n).Succeeds s :=
  succeeds_scope.andThen fun _ _ => Succeeds.andThen ⟨_, _, _, rfl⟩ fun _ _ => succeeds_statements _

theorem succeeds_qualified (name : String) : (qualified name).Succeeds s :=
  succeeds_scope.andThen fun _ _ => succeeds_done _

theorem succeeds_label (name : String) : (label name).Succeeds s :=
  (succeeds_qualified name).andThen fun _ _ => succeeds_statements _

theorem succeeds_goto (name : String) : (goto name).Succeeds s :=
  (succeeds_qualified name).andThen fun _ _ => succeeds_statements _

theorem succeeds_ifGoto (name : String) : (ifGoto name).Succeeds s :=
  (succeeds_statements _).andThen fun _ _ =>
    (succeeds_qualified name).andThen fun _ _ => succeeds_statements _

/-! ### Memory access -/

/-- The emitter gives a value if the segment admits the index, and rejects the index otherwise. -/
def Guards (segment : Segment) (index : Int) (x : Emitter α) : Prop :=
  (segment.Admits index ∧ ∀ s, x.Succeeds s) ∨
    ¬ segment.Admits index ∧ ∃ area shown, x = fail (.index area shown)

theorem Guards.andThen {segment : Segment} {index : Int} {x : Emitter α} {f : α → Emitter β}
    (hx : Guards segment index x) (hf : ∀ a s, (f a).Succeeds s) :
    Guards segment index (andThen x f) := by
  rcases hx with ⟨hadmits, hx⟩ | ⟨hadmits, area, shown, rfl⟩
  · exact .inl ⟨hadmits, fun s => (hx s).andThen hf⟩
  · exact .inr ⟨hadmits, area, shown, rfl⟩

section

variable {index : Int} (hindex : 0 ≤ index) (hbound : index.natAbs < numeralBound)

include hindex hbound

theorem guards_checkIndex {segment : Segment} {area : Area}
    (hlast : segment.Admits index ↔ index ≤ area.last) :
    Guards segment index (checkIndex area index) := by
  by_cases hadmits : segment.Admits index
  · refine .inl ⟨hadmits, fun s => ?_⟩
    rw [checkIndex, if_pos ⟨hindex, hlast.1 hadmits⟩]
    exact succeeds_done ()
  · refine .inr ⟨hadmits, area, toString index, ?_⟩
    rw [checkIndex, if_neg fun h => hadmits (hlast.2 h.2), numeral_eq_done hbound, bind_eq,
      done_andThen]

theorem guards_knownAddress {segment : Segment} (hbase : segment.base? = none)
    (hconstant : segment ≠ .constant) : Guards segment index (knownAddress segment index) := by
  cases segment with
  | constant => exact absurd rfl hconstant
  | «local» | argument | this | that => cases hbase
  | temp => exact (guards_checkIndex hindex hbound Iff.rfl).andThen fun _ _ => succeeds_done _
  | pointer => exact (guards_checkIndex hindex hbound Iff.rfl).andThen fun _ _ => succeeds_done _
  | static =>
    refine .inl ⟨trivial, fun s => ?_⟩
    rw [knownAddress, numeral_eq_done hbound]
    exact (succeeds_done _).andThen fun _ _ => succeeds_scope.andThen fun _ _ => succeeds_done _

theorem guards_push (segment : Segment) : Guards segment index (push segment index) := by
  cases segment with
  | constant =>
    exact (guards_checkIndex hindex hbound Iff.rfl).andThen fun _ _ => succeeds_twice _ _
  | «local» | argument | this | that =>
    refine .inl ⟨trivial, fun s => ?_⟩
    simp only [push, Segment.base?, checkNumeral_eq_done hbound]
    exact (succeeds_done _).andThen fun _ _ => succeeds_twice _ _
  | temp | pointer | static =>
    refine Guards.andThen (guards_knownAddress hindex hbound ?_ ?_) fun _ _ => succeeds_twice _ _
    · rfl
    · decide

theorem guards_pop {segment : Segment} (hconstant : segment ≠ .constant) :
    Guards segment index (pop segment index) := by
  cases segment with
  | constant => exact absurd rfl hconstant
  | «local» | argument | this | that =>
    refine .inl ⟨trivial, fun s => ?_⟩
    simp only [pop, Segment.base?, checkNumeral_eq_done hbound]
    exact (succeeds_done _).andThen fun _ _ => succeeds_twice _ _
  | temp | pointer | static =>
    refine Guards.andThen (guards_knownAddress hindex hbound ?_ ?_) fun _ _ => succeeds_twice _ _
    · rfl
    · decide

end

/-! ### Arguments -/

theorem segment_cases (name : List Char) :
    (∃ s : Segment, name = s.name.toList ∧ segment (String.ofList name) = done s) ∨
      (∀ s : Segment, name ≠ s.name.toList) ∧
        segment (String.ofList name) = fail (.segment (String.ofList name)) := by
  cases hfind : Segment.ofName? (String.ofList name) with
  | some s =>
    have hname := List.find?_some hfind
    rw [beq_iff_eq] at hname
    refine .inl ⟨s, ?_, ?_⟩
    · rw [hname, String.toList_ofList]
    · rw [segment, hfind]
  | none =>
    refine .inr ⟨?_, ?_⟩
    · rintro s rfl
      rw [String.ofList_toList, Segment.ofName?_name] at hfind
      cases hfind
    · rw [segment, hfind]

variable {c : Command} {first : List Char} {args : List (List Char)}

/-- The first argument is the token behind the keyword. -/
theorem argumentOf_cases (harithmetic : c.kind ≠ .arithmetic) (hret : c.kind ≠ .ret)
    (htokens : tokens c.text.toList = first :: args) :
    (∃ name rest, args = name :: rest ∧ argumentOf c = done (String.ofList name)) ∨
      args = [] ∧ argumentOf c = fail (.command (.missingArgument c.kind)) := by
  obtain ⟨text, kind, line⟩ := c
  cases kind with
  | arithmetic => exact absurd rfl harithmetic
  | ret => exact absurd rfl hret
  | _ =>
    cases args with
    | nil =>
      refine .inr ⟨rfl, ?_⟩
      simp only [argumentOf, Command.argument, htokens, ofExcept]
    | cons name rest =>
      refine .inl ⟨name, rest, rfl, ?_⟩
      simp only [argumentOf, Command.argument, htokens, ofExcept]

/-- The arguments of a command with a number are a name and the number, or an error of value stops
the emitter. -/
theorem nameAndCount_cases (hkind : c.kind.hasCount = true)
    (htokens : tokens c.text.toList = first :: args) (f : String → Int → Emitter α) :
    (∃ name n, HasNameAndCount args name n ∧
      (andThen (argumentOf c) fun name => andThen (countOf c) (f name)) =
        f (String.ofList name) n) ∨
      (∀ name n, ¬ HasNameAndCount args name n) ∧ ∃ error, error.faultClass = .value ∧
        (andThen (argumentOf c) fun name => andThen (countOf c) (f name)) = fail error := by
  have harithmetic : c.kind ≠ .arithmetic := fun h => by rw [h] at hkind; cases hkind
  have hret : c.kind ≠ .ret := fun h => by rw [h] at hkind; cases hkind
  rcases argumentOf_cases harithmetic hret htokens with
    ⟨name, rest, rfl, hargument⟩ | ⟨rfl, hargument⟩
  · -- the name is there, and the count decides
    rw [hargument, done_andThen]
    rcases rest with - | ⟨token, rest⟩
    · refine .inr ⟨?_, .command (.missingCount c.kind), rfl, ?_⟩
      · rintro _ _ ⟨_, _, heq, -⟩
        cases heq
      · simp only [countOf, Command.count, hkind, htokens, if_true, ofExcept, fail_andThen]
    · by_cases hdigits : token.all isDigit = true
      · cases hread : readDecimal (String.ofList token) with
        | ok n =>
          refine .inl ⟨name, n, ⟨token, rest, rfl, hdigits, hread⟩, ?_⟩
          simp only [countOf, Command.count, hkind, htokens, hdigits, hread, if_true, ofExcept,
            done_andThen]
        | error error =>
          refine .inr ⟨?_, .command (.numeral error), rfl, ?_⟩
          · rintro _ _ ⟨_, _, heq, -, hread'⟩
            cases heq
            rw [hread] at hread'
            cases hread'
          · simp only [countOf, Command.count, hkind, htokens, hdigits, hread, if_true, ofExcept,
              fail_andThen]
      · refine .inr ⟨?_, .command (.badCount c.kind (String.ofList token)), rfl, ?_⟩
        · rintro _ _ ⟨_, _, heq, hdigits', -⟩
          cases heq
          exact hdigits hdigits'
        · simp only [countOf, Command.count, hkind, htokens, hdigits, if_true, Bool.false_eq_true,
            if_false, ofExcept, fail_andThen]
  · rw [hargument, fail_andThen]
    refine .inr ⟨?_, .command (.missingArgument c.kind), rfl, rfl⟩
    rintro _ _ ⟨_, _, heq, -⟩
    cases heq

/-! ### Outcomes -/

theorem outcome_of_succeeds {takes exceeds : Prop} {x : Emitter Unit} (htakes : takes)
    (hx : x.Succeeds s) : Outcome takes exceeds s (x s) := by
  obtain ⟨lines, s', u, hx⟩ := hx
  rw [hx]
  exact .emitted lines s' htakes

theorem outcome_of_guards {takes exceeds : Prop} {seg : Segment} {index : Int} {x : Emitter Unit}
    (hx : Guards seg index x) (htakes : takes ↔ seg.Admits index)
    (hexceeds : exceeds ↔ ¬ seg.Admits index) : Outcome takes exceeds s (x s) := by
  rcases hx with ⟨hadmits, hx⟩ | ⟨hadmits, area, shown, rfl⟩
  · exact outcome_of_succeeds (htakes.2 hadmits) (hx s)
  · exact .exceeded (mt htakes.1 hadmits) (hexceeds.2 hadmits) rfl

section

variable {takes exceeds : Prop}

theorem outcome_of_name (harithmetic : c.kind ≠ .arithmetic) (hret : c.kind ≠ .ret)
    (htokens : tokens c.text.toList = first :: args) {f : String → Emitter Unit}
    (hf : ∀ name, (f name).Succeeds s) (htakes : takes ↔ args ≠ []) (hexceeds : ¬ exceeds) :
    Outcome takes exceeds s (andThen (argumentOf c) f s) := by
  rcases argumentOf_cases harithmetic hret htokens with ⟨name, rest, rfl, hname⟩ | ⟨rfl, hname⟩
  · rw [hname, done_andThen]
    exact outcome_of_succeeds (htakes.2 (List.cons_ne_nil _ _)) (hf _)
  · rw [hname, fail_andThen]
    exact .refused (fun h => htakes.1 h rfl) hexceeds rfl

theorem outcome_of_nameAndCount (hkind : c.kind.hasCount = true)
    (htokens : tokens c.text.toList = first :: args) {f : String → Int → Emitter Unit}
    (htakes : takes → ∃ name n, HasNameAndCount args name n)
    (hexceeds : exceeds → ∃ name n, HasNameAndCount args name n)
    (hf : ∀ name n, HasNameAndCount args name n →
      Outcome takes exceeds s (f (String.ofList name) n s)) :
    Outcome takes exceeds s
      ((andThen (argumentOf c) fun name => andThen (countOf c) (f name)) s) := by
  rcases nameAndCount_cases hkind htokens f with ⟨name, n, hargs, hx⟩ | ⟨hnone, error, herror, hx⟩
  · rw [hx]
    exact hf name n hargs
  · have hnone : ¬ ∃ name n, HasNameAndCount args name n := fun ⟨name, n, h⟩ => hnone name n h
    rw [hx]
    exact .refused (mt htakes hnone) (mt hexceeds hnone) herror

theorem outcome_of_segment {name : List Char} {f : Segment → Emitter Unit}
    (htakes : takes → ∃ segment : Segment, name = segment.name.toList)
    (hexceeds : exceeds → ∃ segment : Segment, name = segment.name.toList)
    (hf : ∀ segment : Segment, name = segment.name.toList → Outcome takes exceeds s (f segment s)) :
    Outcome takes exceeds s (andThen (segment (String.ofList name)) f s) := by
  rcases segment_cases name with ⟨seg, hname, hx⟩ | ⟨hnone, hx⟩
  · rw [hx, done_andThen]
    exact hf seg hname
  · have hnone : ¬ ∃ segment : Segment, name = segment.name.toList :=
      fun ⟨segment, h⟩ => hnone segment h
    rw [hx, fail_andThen]
    exact .refused (mt htakes hnone) (mt hexceeds hnone) rfl

end

/-- Code is emitted for an arithmetic command if its text is an operator. -/
theorem outcome_arithmetic (hkind : c.kind = .arithmetic)
    (hlabels : s.labelsUsed.natAbs < numeralBound) :
    Outcome (∃ op : Operation, c.text = op.name) False s (plainCommand c s) := by
  have hargument : argumentOf c = done c.text := by
    rw [argumentOf, Command.argument, hkind, ofExcept]
  have hplain : plainCommand c = arithmetic c.text := by
    simp only [plainCommand, hkind, hargument, bind_eq, done_andThen]
  rw [hplain]
  cases hop : Operation.ofName? c.text with
  | some op =>
    have hname := List.find?_some hop
    rw [beq_iff_eq] at hname
    rw [arithmetic, hop]
    exact outcome_of_succeeds ⟨op, hname.symm⟩ (succeeds_operation op hlabels)
  | none =>
    rw [arithmetic, hop]
    refine .refused ?_ id rfl
    rintro ⟨op, htext⟩
    rw [htext, Operation.ofName?_name] at hop
    cases hop

/-- Code is emitted for a command with a keyword if its kind takes the arguments. -/
theorem outcome_plainCommand (hkind : c.kind ≠ .arithmetic)
    (htokens : tokens c.text.toList = first :: args)
    (hlabels : s.labelsUsed.natAbs < numeralBound)
    (hframe : c.kind = .call → ∀ name n, HasNameAndCount args name n →
      (Code.frameCells + n).natAbs < numeralBound) :
    Outcome (c.kind.Takes args) (c.kind.Exceeds args) s (plainCommand c s) := by
  obtain ⟨text, kind, line⟩ := c
  cases kind with
  | arithmetic => exact absurd rfl hkind
  | label => exact outcome_of_name hkind nofun htokens succeeds_label Iff.rfl id
  | goto => exact outcome_of_name hkind nofun htokens succeeds_goto Iff.rfl id
  | ifGoto => exact outcome_of_name hkind nofun htokens succeeds_ifGoto Iff.rfl id
  | ret => exact outcome_of_succeeds trivial (succeeds_statements _)
  | function =>
    have hexceeds : Kind.Exceeds .function args → ∃ name n, HasNameAndCount args name n :=
      False.elim
    exact outcome_of_nameAndCount rfl htokens id hexceeds fun name n hargs =>
      outcome_of_succeeds ⟨name, n, hargs⟩ (succeeds_function _ _)
  | call =>
    have hexceeds : Kind.Exceeds .call args → ∃ name n, HasNameAndCount args name n :=
      False.elim
    exact outcome_of_nameAndCount rfl htokens id hexceeds fun name n hargs =>
      outcome_of_succeeds ⟨name, n, hargs⟩ (succeeds_call _ hlabels (hframe rfl name n hargs))
  | push =>
    refine outcome_of_nameAndCount rfl htokens (fun ⟨_, _, h, _⟩ => ⟨_, _, h⟩)
      (fun ⟨_, _, h, _⟩ => ⟨_, _, h⟩) fun name n hargs => ?_
    refine outcome_of_segment (fun ⟨_, _, h, _⟩ => ⟨_, (hargs.unique h).1⟩)
      (fun ⟨_, _, h, _⟩ => ⟨_, (hargs.unique h).1⟩) fun seg hname => ?_
    subst hname
    obtain ⟨hindex, hbound⟩ := hargs.bounds
    exact outcome_of_guards (guards_push hindex hbound seg) (hargs.exists_iff _)
      (hargs.exists_iff fun segment index => ¬ segment.Admits index)
  | pop =>
    refine outcome_of_nameAndCount rfl htokens (fun ⟨_, _, h, _⟩ => ⟨_, _, h⟩)
      (fun ⟨_, _, h, _⟩ => ⟨_, _, h⟩) fun name n hargs => ?_
    refine outcome_of_segment (fun ⟨_, _, h, _⟩ => ⟨_, (hargs.unique h).1⟩)
      (fun ⟨_, _, h, _⟩ => ⟨_, (hargs.unique h).1⟩) fun seg hname => ?_
    subst hname
    have htakes := hargs.exists_iff fun segment index => segment ≠ .constant ∧ segment.Admits index
    have hexceeds := hargs.exists_iff fun segment index =>
      segment ≠ .constant ∧ ¬ segment.Admits index
    obtain ⟨hindex, hbound⟩ := hargs.bounds
    -- a constant can only be pushed
    by_cases hconstant : seg = .constant
    · rw [hconstant]
      exact .refused (fun h => (htakes.1 h).1 hconstant) (fun h => (hexceeds.1 h).1 hconstant) rfl
    · exact outcome_of_guards (guards_pop hindex hbound hconstant)
        (htakes.trans (and_iff_right hconstant)) (hexceeds.trans (and_iff_right hconstant))

/-- The code of a command stands behind the comment that shows it. -/
theorem command_eq (comments : Bool) (c : Command) (s : Scope) :
    command comments c s =
      ⟨(if comments then [.comment c.text] else []) ++ (plainCommand c s).lines,
        (plainCommand c s).scope, (plainCommand c s).result⟩ := by
  cases comments <;> rfl

end Emitter

/-! ### Adding a command -/

/-- A text that is not blank is read as a command: it keeps what is between the blanks around the
text, and the first token tells the kind. -/
theorem exists_ofText {text : String} (htext : strip text.toList ≠ []) (line : Nat) :
    ∃ first args c, tokens text.toList = first :: args ∧ Command.ofText text line = .ok c ∧
      c.text.toList = strip text.toList ∧ c.kind = Kind.ofToken (String.ofList first) := by
  obtain ⟨first, args, htokens⟩ := List.exists_cons_of_ne_nil (tokens_strip_ne_nil htext)
  refine ⟨first, args, ⟨_, _, line⟩, by rwa [tokens_strip] at htokens, ?_, String.toList_ofList,
    rfl⟩
  rw [Command.ofText, kindOf, String.toList_ofList, htokens]
  rfl

/-- A text that is not blank can be read as a command.  Adding this command to the code succeeds if
the text is a command by the grammar.  Otherwise there is an error, which is about a number out of
range or else about the value of the text, and nothing is added but the comment that shows the
command, if comments are wanted.  So it is in every state in which a label can be numbered, as long
as the number of arguments in a call is shorter than a numeral may be. -/
theorem addCommand_ofText (g : Generator) (hlabels : g.scope.labelsUsed.natAbs < numeralBound)
    (text : String) (htext : strip text.toList ≠ [])
    (hcall : ∀ name token rest,
      tokens text.toList = Kind.call.name.toList :: name :: token :: rest →
        token.all isDigit = true → token.length < maxDigits) (line : Nat) :
    ∃ c, Command.ofText text line = .ok c ∧
      ((g.addCommand c).1 = .ok () ↔ IsCommand text.toList) ∧
      ∀ error g', g.addCommand c = (.error error, g') →
        (IsOutOfRange text.toList ∧ error.faultClass = .index ∨
          ¬ IsOutOfRange text.toList ∧ error.faultClass = .value) ∧
        g' = { g with code := g.code ++
          if g.comments then [Line.comment (String.ofList (strip text.toList))] else [] } := by
  obtain ⟨first, args, c, htokens, hread, hctext, hkind⟩ := exists_ofText htext line
  have houtcome : Outcome (IsCommand text.toList) (IsOutOfRange text.toList) g.scope
      (Emitter.plainCommand c g.scope) := by
    rw [isOutOfRange_iff htokens, ← hkind]
    -- an arithmetic command is its name alone; for the others, the first token decides
    by_cases hfirst : c.kind = .arithmetic
    · have hcommand : IsCommand text.toList ↔ ∃ op : Operation, c.text = op.name := by
        rw [isCommand_iff_of_arithmetic htokens (hkind ▸ hfirst), ← hctext]
        simp only [String.toList_inj]
      rw [hcommand, hfirst]
      exact Emitter.outcome_arithmetic hfirst hlabels
    · rw [isCommand_iff_of_keyword htokens (hkind ▸ hfirst), ← hkind]
      have hctokens : tokens c.text.toList = first :: args := by
        rwa [hctext, tokens_strip]
      refine Emitter.outcome_plainCommand hfirst hctokens hlabels fun hcallKind name n hargs => ?_
      refine hargs.frame_lt fun token rest heq => hcall name token rest ?_
      rw [htokens, heq, ← hcallKind, hkind, Kind.name_ofToken (hkind ▸ hfirst)]
  have hcomment : String.ofList (strip text.toList) = c.text := by
    rw [← hctext, String.ofList_toList]
  refine ⟨c, hread, ?_⟩
  -- all that a rejected command leaves behind is its comment line
  rw [hcomment, Generator.addCommand, Generator.add, Emitter.command_eq]
  generalize Emitter.plainCommand c g.scope = emission at houtcome
  cases houtcome with
  | emitted lines s' htakes => exact ⟨⟨fun _ => htakes, fun _ => rfl⟩, fun _ _ => nofun⟩
  | exceeded htakes hexceeds herror =>
    refine ⟨⟨nofun, fun h => absurd h htakes⟩, ?_⟩
    rintro _ _ ⟨⟩
    exact ⟨.inl ⟨hexceeds, herror⟩, by rw [List.append_nil]⟩
  | refused htakes hexceeds herror =>
    refine ⟨⟨nofun, fun h => absurd h htakes⟩, ?_⟩
    rintro _ _ ⟨⟩
    exact ⟨.inr ⟨hexceeds, herror⟩, by rw [List.append_nil]⟩

/-- A generator that is inside of a function and shows the commands. -/
def insideFunction : Generator where
  comments := true
  scope := { unitName := "A", functionName := "A.f", labelsUsed := 7 }

/-- Inside of the function a call is added, and the push of a cell that the segment does not have
leaves nothing but its comment. -/
theorem addCommand_ofText_insideFunction :
    (∃ c, Command.ofText "  call A.g 2 now" 3 = .ok c ∧
      (insideFunction.addCommand c).1 = .ok ()) ∧
    ∃ c error, Command.ofText "push temp 8" 4 = .ok c ∧ error.faultClass = .index ∧
      insideFunction.addCommand c = (.error error,
        { insideFunction with code := #[.comment "push temp 8"] }) := by
  have hlabels : insideFunction.scope.labelsUsed.natAbs < numeralBound :=
    Nat.lt_of_lt_of_le (by decide) (pow_le_numeralBound (show 1 ≤ maxDigits by decide))
  constructor
  · have htokens : tokens "  call A.g 2 now".toList =
        [Kind.call.name.toList, "A.g".toList, "2".toList, "now".toList] := rfl
    have hcall (name token : List Char) (rest : List (List Char))
        (h : tokens "  call A.g 2 now".toList = Kind.call.name.toList :: name :: token :: rest)
        (_ : token.all isDigit = true) : token.length < maxDigits := by
      rw [htokens] at h
      injection h with _ h
      injection h with _ h
      injection h with htoken _
      rw [← htoken]
      decide
    obtain ⟨c, hread, hiff, -⟩ :=
      addCommand_ofText insideFunction hlabels "  call A.g 2 now" (by decide) hcall 3
    have hcommand : IsCommand "  call A.g 2 now".toList :=
      .keyword .call _ htokens ⟨_, 2, _, _, rfl, by decide, by rfl⟩
    exact ⟨c, hread, hiff.2 hcommand⟩
  · have htokens : tokens "push temp 8".toList =
        [Kind.push.name.toList, Segment.temp.name.toList, "8".toList] := rfl
    have hcall (name token : List Char) (rest : List (List Char))
        (h : tokens "push temp 8".toList = Kind.call.name.toList :: name :: token :: rest)
        (_ : token.all isDigit = true) : token.length < maxDigits := by
      rw [htokens] at h
      injection h with hname
      exact absurd hname (by decide)
    have hargs : HasNameAndCount [Segment.temp.name.toList, "8".toList]
        Segment.temp.name.toList 8 := ⟨_, _, rfl, by decide, by rfl⟩
    have hrange : IsOutOfRange "push temp 8".toList :=
      ⟨.push, _, htokens, .temp, 8, hargs, (by decide : ¬ (8 : Int) ≤ 7)⟩
    obtain ⟨c, hread, hiff, herror⟩ :=
      addCommand_ofText insideFunction hlabels "push temp 8" (by decide) hcall 4
    rcases hadd : insideFunction.addCommand c with ⟨error | _, g'⟩
    · obtain ⟨⟨-, hclass⟩ | ⟨hnone, -⟩, hg⟩ := herror error g' hadd
      · exact ⟨c, error, hread, hclass, by rw [hadd, hg]; rfl⟩
      · exact absurd hrange hnone
    · exact absurd (hiff.1 (by rw [hadd])) hrange.not_isCommand

end HackToolchain.VM
