import HackToolchain.Proofs.Text.Numeral
import HackToolchain.Proofs.Text.Token
import HackToolchain.Text.LineBreak

/-!
# Lines of a text

What survives the joining and the splitting of lines.

* `IsUnbroken`: a text in which no line ends; tokens and the lines of a text are such;
* `Rows.splitLines_eq`, `rows_splitLines`: such texts are the lines of what they are joined to,
  whatever ends them, and every text is joined from its lines;
* `splitLines_flatMap`, `splitLines_intercalate`: so they are when line feeds end them, with one
  after the last text or without it;
* `unifyNewlines_unifyNewlines`: carriage returns are gone after they have been written as line
  feeds once;
* `textLines_endLines`: texts without line ends are the lines of the text that has a line feed after
  each of them;
* `lines_unlines`: texts without line ends that are joined by line feeds are the lines of the
  result, also if carriage returns are written as line feeds in between.
-/

namespace HackToolchain.Text

/-! ### Line ends -/

/-- The characters that end a line. -/
def lineBreaks : List Char :=
  ['\n', '\x0b', '\x0c', '\r', '\x1c', '\x1d', '\x1e', '\u0085', '\u2028', '\u2029']

theorem mem_lineBreaks {c : Char} (h : isLineBreak c = true) : c ∈ lineBreaks := by
  have hnat : c.toNat = 10 ∨ c.toNat = 11 ∨ c.toNat = 12 ∨ c.toNat = 13 ∨ c.toNat = 28 ∨
      c.toNat = 29 ∨ c.toNat = 30 ∨ c.toNat = 0x85 ∨ c.toNat = 0x2028 ∨ c.toNat = 0x2029 := by
    simp only [isLineBreak, Bool.or_eq_true, Bool.and_eq_true, decide_eq_true_eq, beq_iff_eq] at h
    omega
  rw [← Char.ofNat_toNat c]
  rcases hnat with h | h | h | h | h | h | h | h | h | h <;> rw [h] <;> decide

/-- What holds of none of the characters that end a line holds of no line end. -/
theorem isLineBreak_of_pos {p : Char → Bool} (hp : lineBreaks.all (fun c => !p c) = true) {c : Char}
    (hc : p c = true) : isLineBreak c = false := by
  rw [← Bool.not_eq_true]
  intro h
  have := List.all_eq_true.1 hp c (mem_lineBreaks h)
  rw [hc] at this
  cases this

/-- Line ends are blank. -/
theorem isLineBreak_of_not_blank {c : Char} (h : isBlank c = false) : isLineBreak c = false :=
  isLineBreak_of_pos (p := fun c => !isBlank c) (by decide) (by rw [h]; rfl)

/-- No line ends in the text. -/
def IsUnbroken (cs : List Char) : Prop :=
  ∀ c ∈ cs, isLineBreak c = false

theorem isUnbroken_of_all {cs : List Char} (h : cs.all (fun c => !isLineBreak c) = true) :
    IsUnbroken cs := by
  intro c hc
  have hbreak := List.all_eq_true.1 h c hc
  rwa [Bool.not_eq_true'] at hbreak

theorem IsUnbroken.of_isInfix {xs ys : List Char} (hys : IsUnbroken ys) (h : xs <:+: ys) :
    IsUnbroken xs :=
  fun c hc => hys c (h.subset hc)

theorem IsUnbroken.append {xs ys : List Char} (hxs : IsUnbroken xs) (hys : IsUnbroken ys) :
    IsUnbroken (xs ++ ys) := by
  intro c hc
  rcases List.mem_append.1 hc with hc | hc
  · exact hxs c hc
  · exact hys c hc

theorem IsUnbroken.cons {c : Char} {cs : List Char} (hcs : IsUnbroken cs)
    (hc : isLineBreak c = false) : IsUnbroken (c :: cs) :=
  List.forall_mem_cons.2 ⟨hc, hcs⟩

theorem IsToken.isUnbroken {cs : List Char} (h : IsToken cs) : IsUnbroken cs :=
  fun c hc => isLineBreak_of_not_blank (h.not_blank c hc)

/-- No line ends in the numeral of an integer. -/
theorem isUnbroken_toString (n : Int) : IsUnbroken (toString n).toList := by
  intro c hc
  rcases mem_toString_int hc with hdigit | rfl
  · exact isLineBreak_of_not_blank (isBlank_of_asciiDigit hdigit)
  · decide

theorem isUnbroken_toString_nat (n : Nat) : IsUnbroken (toString n).toList :=
  isUnbroken_toString n

/-! ### Splitting -/

/-- The lines of a text, which no line ends in. -/
theorem isUnbroken_of_mem_splitLines {cs x : List Char} (hx : x ∈ splitLines cs) :
    IsUnbroken x := by
  -- the lines before and the current one, last character first, are unbroken all the time
  have hpush {line : List Char} {lines : Array (List Char)} (hline : IsUnbroken line)
      (hlines : ∀ x ∈ lines, IsUnbroken x) : ∀ x ∈ lines.push line.reverse, IsUnbroken x := by
    intro x hx
    rcases Array.mem_push.1 hx with hx | rfl
    · exact hlines x hx
    · exact fun c hc => hline c (List.mem_reverse.1 hc)
  have hgo {cs line : List Char} {lines : Array (List Char)} (hline : IsUnbroken line)
      (hlines : ∀ x ∈ lines, IsUnbroken x) : ∀ x ∈ splitLines.go cs line lines, IsUnbroken x := by
    fun_induction splitLines.go cs line lines with
    | case1 => exact hlines
    | case2 => exact hpush hline hlines
    | case3 cs line lines ih => exact ih (fun _ hc => nomatch hc) (hpush hline hlines)
    | case4 c cs line lines _ _ ih => exact ih (fun _ hc => nomatch hc) (hpush hline hlines)
    | case5 c cs line lines _ hc ih =>
      refine ih (fun d hd => ?_) hlines
      rcases List.mem_cons.1 hd with rfl | hd
      · exact Bool.not_eq_true _ ▸ hc
      · exact hline d hd
  exact hgo (fun _ hc => absurd hc List.not_mem_nil) (fun _ hx => absurd hx (Array.not_mem_empty _))
    x (Array.mem_toList_iff.1 hx)

/-- The text `sep` ends a line in front of `rest`: a line end on its own, or the two that count as
one. -/
inductive EndsLine : List Char → List Char → Prop
  /-- A carriage return and a line feed. -/
  | both (rest : List Char) : EndsLine ['\r', '\n'] rest
  /-- One character, which takes no line feed behind it along. -/
  | single {c : Char} {rest : List Char} (hbreak : isLineBreak c = true)
      (halone : c = '\r' → rest.head? ≠ some '\n') : EndsLine [c] rest

theorem splitLines_go_of_endsLine {sep rest : List Char} (h : EndsLine sep rest) (line : List Char)
    (lines : Array (List Char)) :
    splitLines.go (sep ++ rest) line lines = splitLines.go rest [] (lines.push line.reverse) := by
  cases h with
  | both => simp only [List.cons_append, List.nil_append, splitLines.go]
  | single hbreak halone =>
    rw [List.singleton_append, splitLines.go, if_pos hbreak]
    rintro cs rfl rfl
    exact halone rfl rfl

theorem splitLines_go_append_endsLine {xs sep rest : List Char} (hxs : IsUnbroken xs)
    (h : EndsLine sep rest) (line : List Char) (lines : Array (List Char)) :
    splitLines.go (xs ++ (sep ++ rest)) line lines =
      splitLines.go rest [] (lines.push (line.reverse ++ xs)) := by
  induction xs generalizing line with
  | nil => rw [List.nil_append, List.append_nil, splitLines_go_of_endsLine h]
  | cons x xs ih =>
    obtain ⟨hx, hxs⟩ := List.forall_mem_cons.1 hxs
    rw [List.cons_append, splitLines.go, if_neg (by rw [hx]; exact Bool.false_ne_true), ih hxs,
      List.reverse_cons, List.append_assoc, List.singleton_append]
    rintro _ rfl
    cases hx

theorem splitLines_go_unbroken {xs : List Char} (hxs : IsUnbroken xs) (hne : xs ≠ [])
    (line : List Char) (lines : Array (List Char)) :
    splitLines.go xs line lines = lines.push (line.reverse ++ xs) := by
  induction xs generalizing line with
  | nil => exact absurd rfl hne
  | cons x xs ih =>
    obtain ⟨hx, hrest⟩ := List.forall_mem_cons.1 hxs
    rw [splitLines.go, if_neg (by rw [hx]; exact Bool.false_ne_true)]
    · cases xs with
      | nil =>
        rw [splitLines.go, List.reverse_cons]
      | cons y ys =>
        rw [ih hrest (List.cons_ne_nil _ _), List.reverse_cons, List.append_assoc,
          List.singleton_append]
    · rintro _ rfl
      cases hx

/-- A text consists of rows without line ends, each of which is ended in some way.  The last one
need not be, if it is not empty. -/
inductive Rows : List (List Char) → List Char → Prop
  /-- No text at all. -/
  | nil : Rows [] []
  /-- A last row that is not ended. -/
  | last {row : List Char} (hrow : IsUnbroken row) (hne : row ≠ []) : Rows [row] row
  /-- A row that is ended. -/
  | cons {row sep rest : List Char} {rows : List (List Char)} (hrow : IsUnbroken row)
      (hsep : EndsLine sep rest) (hrest : Rows rows rest) :
      Rows (row :: rows) (row ++ (sep ++ rest))

/-- The rows of a text are its lines, however they are ended. -/
theorem Rows.splitLines_eq {rows : List (List Char)} {cs : List Char} (h : Rows rows cs) :
    splitLines cs = rows := by
  have hgo (done : Array (List Char)) :
      (splitLines.go cs [] done).toList = done.toList ++ rows := by
    induction h generalizing done with
    | nil => exact (List.append_nil _).symm
    | last hrow hne =>
      rw [splitLines_go_unbroken hrow hne, Array.toList_push]
      rfl
    | cons hrow hsep _ ih =>
      rw [splitLines_go_append_endsLine hrow hsep, ih, Array.toList_push, List.append_assoc]
      rfl
  exact hgo #[]

/-- Every text consists of rows. -/
theorem exists_rows (cs : List Char) : ∃ rows, Rows rows cs := by
  -- by the length of the text, since a row is taken off together with its break
  induction hlength : cs.length using Nat.strong_induction_on generalizing cs with
  | _ n ih =>
    obtain ⟨row, rest, rfl, hrow, hrest⟩ := exists_split isLineBreak cs
    rw [List.length_append] at hlength
    cases rest with
    | nil =>
      rw [List.append_nil]
      by_cases hne : row = []
      · exact ⟨[], hne ▸ .nil⟩
      · exact ⟨[row], .last hrow hne⟩
    | cons c rest =>
      rw [List.length_cons] at hlength
      by_cases hboth : c = '\r' ∧ rest.head? = some '\n'
      · obtain ⟨rfl, hhead⟩ := hboth
        obtain ⟨rest, rfl⟩ := List.head?_eq_some_iff.1 hhead
        rw [List.length_cons] at hlength
        obtain ⟨rows, hrows⟩ := ih rest.length (by omega) rest rfl
        exact ⟨row :: rows, .cons hrow (.both rest) hrows⟩
      · obtain ⟨rows, hrows⟩ := ih rest.length (by omega) rest rfl
        exact ⟨row :: rows, .cons hrow
          (.single (hrest c rfl) fun hc hhead => hboth ⟨hc, hhead⟩) hrows⟩

/-- A text consists of its lines. -/
theorem rows_splitLines (cs : List Char) : Rows (splitLines cs) cs := by
  obtain ⟨rows, hrows⟩ := exists_rows cs
  rwa [hrows.splitLines_eq]

theorem endsLine_lineFeed (rest : List Char) : EndsLine ['\n'] rest :=
  .single (by decide) fun h => absurd h (by decide)

/-- Texts without line ends that a line feed ends are the lines of what they are joined to. -/
theorem splitLines_flatMap {lines : List (List Char)} (h : ∀ line ∈ lines, IsUnbroken line) :
    splitLines (lines.flatMap (· ++ ['\n'])) = lines := by
  apply Rows.splitLines_eq
  induction lines with
  | nil => exact .nil
  | cons line lines ih =>
    obtain ⟨hline, hlines⟩ := List.forall_mem_cons.1 h
    rw [List.flatMap_cons, List.append_assoc]
    exact .cons hline (endsLine_lineFeed _) (ih hlines)

/-- Texts without line ends, none of them empty, that are joined by line feeds are the lines of the
result. -/
theorem splitLines_intercalate {lines : List (List Char)} (h : ∀ line ∈ lines, IsUnbroken line)
    (hne : ∀ line ∈ lines, line ≠ []) : splitLines (['\n'].intercalate lines) = lines := by
  apply Rows.splitLines_eq
  induction lines with
  | nil => exact .nil
  | cons line lines ih =>
    obtain ⟨hline, hlines⟩ := List.forall_mem_cons.1 h
    obtain ⟨hline', hlines'⟩ := List.forall_mem_cons.1 hne
    cases lines with
    | nil =>
      rw [List.intercalate_singleton]
      exact .last hline hline'
    | cons next lines =>
      rw [List.intercalate_cons_cons, List.append_assoc]
      exact .cons hline (endsLine_lineFeed _) (ih hlines hlines')

/-! ### Carriage returns -/

/-- A text without carriage returns stays as it is. -/
theorem unifyNewlines_eq_self {cs : List Char} (h : '\r' ∉ cs) : unifyNewlines cs = cs := by
  have hgo (done : List Char) : unifyNewlines.go cs done = done.reverse ++ cs := by
    induction cs generalizing done with
    | nil => exact (List.append_nil _).symm
    | cons c cs ih =>
      have hc : c ≠ '\r' := fun hc => h (hc ▸ List.mem_cons_self)
      rw [unifyNewlines.go, ih fun hmem => h (List.mem_cons_of_mem _ hmem), List.reverse_cons,
        List.append_assoc, List.singleton_append]
      · exact fun _ hc' => absurd hc' hc
      · exact hc
  exact hgo []

theorem return_notMem_unifyNewlines (cs : List Char) : '\r' ∉ unifyNewlines cs := by
  have hgo (cs done : List Char) (hdone : '\r' ∉ done) : '\r' ∉ unifyNewlines.go cs done := by
    have hcons {c : Char} {done : List Char} (hc : c ≠ '\r') (hdone : '\r' ∉ done) :
        '\r' ∉ c :: done :=
      List.not_mem_cons_of_ne_of_not_mem hc.symm hdone
    fun_induction unifyNewlines.go cs done with
    | case1 done => rwa [List.mem_reverse]
    | case2 cs done ih => exact ih (hcons (by decide) hdone)
    | case3 cs done _ ih => exact ih (hcons (by decide) hdone)
    | case4 c cs done _ hc ih => exact ih (hcons hc hdone)
  exact hgo cs [] List.not_mem_nil

/-- Carriage returns that have been written as line feeds are gone. -/
@[simp] theorem unifyNewlines_unifyNewlines (cs : List Char) :
    unifyNewlines (unifyNewlines cs) = unifyNewlines cs :=
  unifyNewlines_eq_self (return_notMem_unifyNewlines cs)

theorem unifyNewlines_flatMap {lines : List (List Char)} (h : ∀ line ∈ lines, IsUnbroken line) :
    unifyNewlines (lines.flatMap (· ++ ['\n'])) = lines.flatMap (· ++ ['\n']) := by
  apply unifyNewlines_eq_self
  intro hmem
  obtain ⟨line, hline, hmem⟩ := List.mem_flatMap.1 hmem
  rcases List.mem_append.1 hmem with hmem | hmem
  · exact absurd (h line hline _ hmem) (by decide)
  · exact absurd hmem (by decide)

/-! ### Joining -/

theorem toList_unlines (line : String) (lines : List String) :
    (unlines (line :: lines)).toList =
      ((line :: lines).map String.toList).flatMap (· ++ ['\n']) := by
  rw [unlines, String.toList_append, String.toList_intercalate]
  induction lines generalizing line with
  | nil => simp
  | cons next lines ih =>
    rw [List.map_cons, List.map_cons, List.intercalate_cons_cons, List.append_assoc,
      List.append_assoc, ← List.map_cons, ih]
    simp

/-- The lines of a text. -/
def textLines (text : String) : List String :=
  (splitLines text.toList).map String.ofList

/-- Lines in one text, with a line feed after each. -/
def endLines : List String → String
  | [] => ""
  | line :: lines => line ++ "\n" ++ endLines lines

theorem toList_endLines (lines : List String) :
    (endLines lines).toList = (lines.map String.toList).flatMap (· ++ ['\n']) := by
  induction lines with
  | nil => rfl
  | cons line lines ih =>
    rw [endLines, String.toList_append, String.toList_append, ih, List.map_cons, List.flatMap_cons]
    rfl

/-- Texts without line ends are the lines of the text in which a line feed stands after each. -/
theorem textLines_endLines {lines : List String} (h : ∀ line ∈ lines, IsUnbroken line.toList) :
    textLines (endLines lines) = lines := by
  rw [textLines, toList_endLines, splitLines_flatMap (List.forall_mem_map.2 h), List.map_map]
  exact List.map_id'' (fun _ => String.ofList_toList) _

/-- Texts without line ends that are joined by line feeds are read as they were.  No text at all is
read as one that is empty. -/
theorem lines_unlines {lines : List String} (h : ∀ line ∈ lines, IsUnbroken line.toList) :
    (splitLines (unifyNewlines (unlines lines).toList)).map String.ofList =
      if lines = [] then [""] else lines := by
  cases lines with
  | nil => rfl
  | cons line lines =>
    have hmap : ∀ x ∈ (line :: lines).map String.toList, IsUnbroken x := by
      intro x hx
      obtain ⟨y, hy, rfl⟩ := List.mem_map.1 hx
      exact h y hy
    rw [toList_unlines, unifyNewlines_flatMap hmap, splitLines_flatMap hmap, List.map_map,
      if_neg (List.cons_ne_nil _ _)]
    exact List.map_id'' (fun _ => String.ofList_toList) _

end HackToolchain.Text
