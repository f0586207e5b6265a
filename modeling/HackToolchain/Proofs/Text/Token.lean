import HackToolchain.Text.Blank
import Mathlib.Data.List.Chain
import Mathlib.Data.List.TakeWhile

/-!
# Tokens and comments

What survives the removal of comments and the splitting into tokens.

* `isPlain_beforeSlashes`, `beforeSlashes_eq_self`, `beforeSlashes_append`: removing the comment
  leaves a text without one, changes nothing of a text without one, and takes a comment off again;
* `IsToken`: a text that is not empty and holds neither blanks nor a comment;
* `isToken_of_mem_tokens`: the tokens of a text without a comment are such;
* `strip_strip`, `tokens_strip`, `tokens_strip_ne_nil`: blanks are gone after they have been cut off
  once, the tokens stay, and what is left then has a token;
* `tokens_append_of_blank`, `tokens_append`: the tokens of a text are read from its front;
* `eq_of_tokens_eq_singleton`: a token that stands alone between blanks is all that is left then;
* `append_cons_inj_of_first`, `append_cons_inj_of_last`: a text can be split at the first or the
  last mark of a kind in one way.
-/

namespace HackToolchain.Text

/-! ### Texts without a comment -/

/-- No two slashes touch in the text. -/
def IsPlain (cs : List Char) : Prop :=
  cs.IsChain fun c d => ¬ (c = '/' ∧ d = '/')

theorem beforeSlashes_slashes (cs : List Char) : beforeSlashes ('/' :: '/' :: cs) = [] := rfl

theorem beforeSlashes_cons_of_head {c : Char} {cs : List Char}
    (h : ¬ (c = '/' ∧ cs.head? = some '/')) : beforeSlashes (c :: cs) = c :: beforeSlashes cs := by
  rw [beforeSlashes]
  rintro cs' rfl rfl
  exact h ⟨rfl, rfl⟩

theorem beforeSlashes_isPrefix (cs : List Char) : beforeSlashes cs <+: cs := by
  fun_induction beforeSlashes cs with
  | case1 => exact List.nil_prefix
  | case2 c cs _ ih => exact (List.prefix_cons_inj c).2 ih
  | case3 => exact List.nil_prefix

theorem beforeSlashes_eq_self {cs : List Char} (h : IsPlain cs) : beforeSlashes cs = cs := by
  induction cs with
  | nil => rfl
  | cons c cs ih =>
    rw [IsPlain, List.isChain_cons] at h
    rw [beforeSlashes_cons_of_head fun ⟨hc, hd⟩ => h.1 _ hd ⟨hc, rfl⟩, ih h.2]

theorem head?_beforeSlashes {cs : List Char} {c : Char} (h : c ∈ (beforeSlashes cs).head?) :
    c ∈ cs.head? := by
  obtain ⟨rest, hrest⟩ := beforeSlashes_isPrefix cs
  rw [← hrest]
  exact List.mem_head?_append_of_mem_head? h

theorem isPlain_beforeSlashes (cs : List Char) : IsPlain (beforeSlashes cs) := by
  induction cs with
  | nil => exact .nil
  | cons c cs ih =>
    by_cases hc : c = '/' ∧ cs.head? = some '/'
    · obtain ⟨rfl, hcs⟩ := hc
      obtain ⟨cs', rfl⟩ := List.head?_eq_some_iff.1 hcs
      exact .nil
    · rw [beforeSlashes_cons_of_head hc, IsPlain, List.isChain_cons]
      refine ⟨fun d hd hslash => hc ⟨hslash.1, ?_⟩, ih⟩
      rw [← hslash.2]
      exact head?_beforeSlashes hd

theorem isPlain_of_not_mem {cs : List Char} (h : '/' ∉ cs) : IsPlain cs := by
  induction cs with
  | nil => exact .nil
  | cons c cs ih =>
    rw [IsPlain, List.isChain_cons]
    refine ⟨fun d _ hslash => h ?_, ih fun hmem => h (List.mem_cons_of_mem _ hmem)⟩
    rw [hslash.1]
    exact List.mem_cons_self

theorem IsPlain.of_isInfix {xs ys : List Char} (h : IsPlain ys) (hxs : xs <:+: ys) : IsPlain xs :=
  List.IsChain.infix h hxs

/-- Texts without a comment stay so when a character that is no slash stands between them. -/
theorem IsPlain.append_cons {xs ys : List Char} {c : Char} (hxs : IsPlain xs) (hys : IsPlain ys)
    (hc : c ≠ '/') : IsPlain (xs ++ c :: ys) := by
  rw [IsPlain, List.isChain_append]
  refine ⟨hxs, ?_, fun x _ y hy hslash => ?_⟩
  · rw [List.isChain_cons]
    exact ⟨fun y _ hslash => hc hslash.1, hys⟩
  · cases hy
    exact hc hslash.2

theorem IsPlain.cons {xs : List Char} {c : Char} (hxs : IsPlain xs) (hc : c ≠ '/') :
    IsPlain (c :: xs) :=
  IsPlain.append_cons List.isChain_nil hxs hc

theorem IsPlain.concat {xs : List Char} {c : Char} (hxs : IsPlain xs) (hc : c ≠ '/') :
    IsPlain (xs ++ [c]) :=
  hxs.append_cons .nil hc

/-- Texts without a comment stay so when they are joined, unless a slash stands on either side of
the joint. -/
theorem IsPlain.append {xs ys : List Char} (hxs : IsPlain xs) (hys : IsPlain ys)
    (h : xs.getLast? ≠ some '/' ∨ ys.head? ≠ some '/') : IsPlain (xs ++ ys) := by
  rw [IsPlain, List.isChain_append]
  refine ⟨hxs, hys, fun x hx y hy ⟨hx', hy'⟩ => ?_⟩
  rw [hx'] at hx
  rw [hy'] at hy
  exact h.elim (fun hlast => hlast hx) (fun hhead => hhead hy)

/-- A comment is removed from behind a text without one that does not end in a slash. -/
theorem beforeSlashes_append {code : List Char} (hcode : IsPlain code)
    (hlast : code.getLast? ≠ some '/') (comment : List Char) :
    beforeSlashes (code ++ '/' :: '/' :: comment) = code := by
  induction code with
  | nil => rfl
  | cons c cs ih =>
    rw [IsPlain, List.isChain_cons] at hcode
    cases cs with
    | nil =>
      rw [List.singleton_append, beforeSlashes_cons_of_head, beforeSlashes_slashes]
      rintro ⟨rfl, -⟩
      exact hlast rfl
    | cons d ds =>
      have hhead : ¬ (c = '/' ∧ (d :: ds ++ '/' :: '/' :: comment).head? = some '/') :=
        fun ⟨hc, hd⟩ => hcode.1 _ hd ⟨hc, rfl⟩
      rw [List.cons_append, beforeSlashes_cons_of_head hhead,
        ih hcode.2 (by rwa [List.getLast?_cons_cons] at hlast)]

/-- A text holds no comment, or it is one behind a text that does not end in a slash. -/
theorem beforeSlashes_cases (cs : List Char) :
    beforeSlashes cs = cs ∨ ∃ comment, cs = beforeSlashes cs ++ '/' :: '/' :: comment ∧
      (beforeSlashes cs).getLast? ≠ some '/' := by
  induction cs with
  | nil => exact .inl rfl
  | cons c cs ih =>
    by_cases hc : c = '/' ∧ cs.head? = some '/'
    · obtain ⟨rfl, hcs⟩ := hc
      obtain ⟨comment, rfl⟩ := List.head?_eq_some_iff.1 hcs
      exact .inr ⟨comment, rfl, nofun⟩
    · rw [beforeSlashes_cons_of_head hc]
      rcases ih with hsame | ⟨comment, hsplit, hlast⟩
      · exact .inl (by rw [hsame])
      · refine .inr ⟨comment, by rw [List.cons_append, ← hsplit], ?_⟩
        cases hcode : beforeSlashes cs with
        | nil =>
          -- the comment would begin one character earlier
          rintro ⟨⟩
          rw [hsplit, hcode] at hc
          exact hc ⟨rfl, rfl⟩
        | cons d ds =>
          rw [List.getLast?_cons_cons, ← hcode]
          exact hlast

/-! ### Marks -/

theorem before_append {mark : Char} {xs ys : List Char} (h : mark ∉ xs) :
    before mark (xs ++ mark :: ys) = xs := by
  rw [before, List.takeWhile_append_of_pos, List.takeWhile_cons_of_neg, List.append_nil]
  · simp
  · intro c hc
    rw [bne_iff_ne]
    rintro rfl
    exact h hc

theorem after_append {mark : Char} {xs ys : List Char} (h : mark ∉ xs) :
    after mark (xs ++ mark :: ys) = ys := by
  rw [after, List.dropWhile_append_of_pos, List.dropWhile_cons_of_neg]
  · rfl
  · simp
  · intro c hc
    rw [bne_iff_ne]
    rintro rfl
    exact h hc

/-- A text is split at the first character of a kind. -/
theorem exists_split (p : Char → Bool) (cs : List Char) :
    ∃ front rest, cs = front ++ rest ∧ (∀ c ∈ front, p c = false) ∧
      ∀ c ∈ rest.head?, p c = true := by
  refine ⟨cs.takeWhile (!p ·), cs.dropWhile (!p ·), List.takeWhile_append_dropWhile.symm,
    fun c hc => ?_, fun c hc => ?_⟩
  · simpa using List.mem_takeWhile_imp hc
  · have hhead := List.head?_dropWhile_not (!p ·) cs
    rw [hc] at hhead
    simpa using hhead

/-- A text can be split at a mark in one way if the mark is to be the first of its kind. -/
theorem append_cons_inj_of_first {mark : Char} {xs ys us vs : List Char} (hxs : mark ∉ xs)
    (hus : mark ∉ us) (h : xs ++ mark :: ys = us ++ mark :: vs) : xs = us ∧ ys = vs := by
  have hbefore := congrArg (before mark) h
  have hafter := congrArg (after mark) h
  rw [before_append hxs, before_append hus] at hbefore
  rw [after_append hxs, after_append hus] at hafter
  exact ⟨hbefore, hafter⟩

/-- And in one way if it is to be the last. -/
theorem append_cons_inj_of_last {mark : Char} {xs ys us vs : List Char} (hys : mark ∉ ys)
    (hvs : mark ∉ vs) (h : xs ++ mark :: ys = us ++ mark :: vs) : xs = us ∧ ys = vs := by
  have hreverse := congrArg List.reverse h
  simp only [List.reverse_append, List.reverse_cons, List.append_assoc, List.singleton_append]
    at hreverse
  have hsplit := append_cons_inj_of_first (by rwa [List.mem_reverse]) (by rwa [List.mem_reverse])
    hreverse
  rw [List.reverse_inj, List.reverse_inj] at hsplit
  exact hsplit.symm

/-! ### Stripping -/

theorem stripLeft_isInfix (cs : List Char) : stripLeft cs <:+: cs :=
  (List.dropWhile_suffix _).isInfix

theorem stripRight_isPrefix (cs : List Char) : stripRight cs <+: cs := by
  rw [stripRight, ← List.reverse_suffix, List.reverse_reverse]
  exact List.dropWhile_suffix _

theorem strip_isInfix (cs : List Char) : strip cs <:+: cs :=
  (stripRight_isPrefix _).isInfix.trans (stripLeft_isInfix cs)

/-- A text without blanks at its ends stays as it is. -/
theorem strip_eq_self {cs : List Char} (hhead : ∀ c ∈ cs.head?, isBlank c = false)
    (hlast : ∀ c ∈ cs.getLast?, isBlank c = false) : strip cs = cs := by
  have hleft : stripLeft cs = cs := by
    cases cs with
    | nil => rfl
    | cons c cs =>
      rw [stripLeft, List.dropWhile_cons_of_neg]
      rw [hhead c rfl]
      exact Bool.false_ne_true
  rw [strip, hleft, stripRight]
  cases hcs : cs.reverse with
  | nil =>
    rw [List.reverse_eq_nil_iff] at hcs
    rw [hcs]
    rfl
  | cons c rs =>
    have hc : isBlank c = false := by
      apply hlast
      rw [← List.head?_reverse, hcs]
      rfl
    rw [List.dropWhile_cons_of_neg (by rw [hc]; exact Bool.false_ne_true), ← hcs,
      List.reverse_reverse]

theorem head?_dropWhile_isBlank (cs : List Char) :
    ∀ c ∈ (cs.dropWhile isBlank).head?, isBlank c = false := by
  intro c hc
  have h := List.head?_dropWhile_not isBlank cs
  rw [hc] at h
  simpa using h

theorem head?_strip (cs : List Char) : ∀ c ∈ (strip cs).head?, isBlank c = false := by
  intro c hc
  obtain ⟨rest, hrest⟩ := stripRight_isPrefix (stripLeft cs)
  apply head?_dropWhile_isBlank cs
  rw [← stripLeft, ← hrest]
  exact List.mem_head?_append_of_mem_head? hc

theorem getLast?_strip (cs : List Char) : ∀ c ∈ (strip cs).getLast?, isBlank c = false := by
  rw [strip, stripRight, List.getLast?_reverse]
  exact head?_dropWhile_isBlank _

@[simp] theorem strip_strip (cs : List Char) : strip (strip cs) = strip cs :=
  strip_eq_self (head?_strip cs) (getLast?_strip cs)

/-! ### Tokens -/

/-- The text is not empty, and holds neither blanks nor a comment. -/
structure IsToken (cs : List Char) : Prop where
  ne_nil : cs ≠ []
  not_blank : ∀ c ∈ cs, isBlank c = false
  isPlain : IsPlain cs

/-- A text in which all characters are fit for a token, and none is a slash. -/
theorem isToken_of_all {cs : List Char} (hne : cs ≠ [])
    (h : cs.all (fun c => !isBlank c && c != '/') = true) : IsToken cs := by
  have hall {c : Char} (hc : c ∈ cs) : isBlank c = false ∧ c ≠ '/' := by
    simpa using List.all_eq_true.1 h c hc
  exact ⟨hne, fun c hc => (hall hc).1, isPlain_of_not_mem fun hslash => (hall hslash).2 rfl⟩

theorem mem_tokens_go {cs word token : List Char} (h : token ∈ tokens.go cs word)
    (hword : ∀ c ∈ word, isBlank c = false) :
    token ≠ [] ∧ (∀ c ∈ token, isBlank c = false) ∧ token <:+: word.reverse ++ cs := by
  -- the word that has been begun has no blank in it
  induction cs generalizing word with
  | nil =>
    cases word with
    | nil => cases h
    | cons w word =>
      rw [tokens.go, List.mem_singleton] at h
      subst h
      refine ⟨by simp, fun c hc => hword c (List.mem_reverse.1 hc), ?_⟩
      exact (List.prefix_append _ _).isInfix
  | cons c cs ih =>
    unfold tokens.go at h
    split at h
    · cases word with
      | nil =>
        obtain ⟨hne, hblank, hinfix⟩ := ih h hword
        exact ⟨hne, hblank, List.infix_cons hinfix⟩
      | cons w word =>
        rcases List.mem_cons.1 h with rfl | h
        · refine ⟨by simp, fun d hd => hword d (List.mem_reverse.1 hd), ?_⟩
          exact (List.prefix_append _ _).isInfix
        · obtain ⟨hne, hblank, hinfix⟩ := ih h (fun _ hd => nomatch hd)
          refine ⟨hne, hblank, hinfix.trans ?_⟩
          exact ⟨(w :: word).reverse ++ [c], [], by simp⟩
    · rename_i hc
      obtain ⟨hne, hblank, hinfix⟩ := ih h (by
        intro d hd
        rcases List.mem_cons.1 hd with rfl | hd
        · exact Bool.not_eq_true _ ▸ hc
        · exact hword d hd)
      refine ⟨hne, hblank, ?_⟩
      rwa [List.reverse_cons, List.append_assoc] at hinfix

theorem isToken_of_mem_tokens {cs token : List Char} (hcs : IsPlain cs) (h : token ∈ tokens cs) :
    IsToken token := by
  obtain ⟨hne, hblank, hinfix⟩ := mem_tokens_go h (fun _ hc => nomatch hc)
  exact ⟨hne, hblank, hcs.of_isInfix hinfix⟩

theorem tokens_dropWhile_isBlank (cs : List Char) : tokens (cs.dropWhile isBlank) = tokens cs := by
  induction cs with
  | nil => rfl
  | cons c cs ih =>
    by_cases hc : isBlank c = true
    · rw [List.dropWhile_cons_of_pos hc, ih, tokens, tokens, tokens.go, if_pos hc]
    · rw [List.dropWhile_cons_of_neg hc]

theorem tokens_go_of_blank {blanks : List Char} (h : ∀ c ∈ blanks, isBlank c = true)
    (word : List Char) : tokens.go blanks word = tokens.go [] word := by
  induction blanks generalizing word with
  | nil => rfl
  | cons c blanks ih =>
    obtain ⟨hc, hblanks⟩ := List.forall_mem_cons.1 h
    have hnone : tokens.go blanks [] = [] := ih hblanks []
    cases word <;> simp only [tokens.go, hc, if_true, hnone]

theorem tokens_go_append_of_blank {blanks : List Char} (h : ∀ c ∈ blanks, isBlank c = true)
    (cs word : List Char) : tokens.go (cs ++ blanks) word = tokens.go cs word := by
  induction cs generalizing word with
  | nil => exact tokens_go_of_blank h word
  | cons c cs ih => cases word <;> simp only [List.cons_append, tokens.go, ih]

/-- The blanks around a text are not among its tokens. -/
@[simp] theorem tokens_strip (cs : List Char) : tokens (strip cs) = tokens cs := by
  have hleft : tokens (stripLeft cs) = tokens cs := tokens_dropWhile_isBlank cs
  have hblank : ∀ c ∈ ((stripLeft cs).reverse.takeWhile isBlank).reverse, isBlank c = true := by
    intro c hc
    exact List.mem_takeWhile_imp (List.mem_reverse.1 hc)
  have hsplit : strip cs ++ ((stripLeft cs).reverse.takeWhile isBlank).reverse = stripLeft cs := by
    rw [strip, stripRight, ← List.reverse_append, List.takeWhile_append_dropWhile,
      List.reverse_reverse]
  rw [← hleft, ← hsplit, tokens, tokens, tokens_go_append_of_blank hblank]

theorem tokens_go_ne_nil (cs : List Char) {word : List Char} (h : word ≠ []) :
    tokens.go cs word ≠ [] := by
  induction cs generalizing word with
  | nil =>
    cases word with
    | nil => contradiction
    | cons c word => simp [tokens.go]
  | cons c cs ih =>
    cases word with
    | nil => contradiction
    | cons d word =>
      unfold tokens.go
      split
      · exact List.cons_ne_nil _ _
      · exact ih (List.cons_ne_nil _ _)

/-- What is left of a text without the blanks around it has a token, if anything is left. -/
theorem tokens_strip_ne_nil {cs : List Char} (h : strip cs ≠ []) : tokens (strip cs) ≠ [] := by
  cases hcs : strip cs with
  | nil => contradiction
  | cons c rest =>
    have hc : isBlank c = false := by
      apply head?_strip cs
      rw [hcs]
      rfl
    rw [tokens, tokens.go, if_neg (by rw [hc]; exact Bool.false_ne_true)]
    exact tokens_go_ne_nil rest (List.cons_ne_nil _ _)

/-- A text has no tokens just if it is blank. -/
theorem tokens_eq_nil_iff {cs : List Char} : tokens cs = [] ↔ ∀ c ∈ cs, isBlank c = true := by
  constructor
  · intro h
    induction cs with
    | nil => exact fun _ hc => absurd hc List.not_mem_nil
    | cons c cs ih =>
      rw [tokens, tokens.go] at h
      by_cases hc : isBlank c = true
      · rw [if_pos hc] at h
        exact List.forall_mem_cons.2 ⟨hc, ih h⟩
      · rw [if_neg hc] at h
        exact absurd h (tokens_go_ne_nil cs (List.cons_ne_nil _ _))
  · intro h
    exact tokens_go_of_blank h []

/-- Blanks in front of a text are not among its tokens. -/
theorem tokens_append_of_blank {blanks : List Char} (h : ∀ c ∈ blanks, isBlank c = true)
    (cs : List Char) : tokens (blanks ++ cs) = tokens cs := by
  rw [← tokens_dropWhile_isBlank, List.dropWhile_append_of_pos h, tokens_dropWhile_isBlank]

/-- A text that is not blank anywhere is a token if nothing or a blank stands behind it. -/
theorem tokens_append {token rest : List Char} (hne : token ≠ [])
    (htoken : ∀ c ∈ token, isBlank c = false) (hrest : ∀ c ∈ rest.head?, isBlank c = true) :
    tokens (token ++ rest) = token :: tokens rest := by
  -- from inside of the token, reading goes on to its end
  have hgo {xs word : List Char} (hxs : ∀ c ∈ xs, isBlank c = false) (hword : word ≠ []) :
      tokens.go (xs ++ rest) word = (word.reverse ++ xs) :: tokens rest := by
    induction xs generalizing word with
    | nil =>
      obtain ⟨w, ws, rfl⟩ := List.exists_cons_of_ne_nil hword
      rw [List.nil_append, List.append_nil]
      cases rest with
      | nil => rfl
      | cons c cs => simp only [tokens, tokens.go, hrest c rfl, if_true]
    | cons x xs ih =>
      obtain ⟨hx, hxs⟩ := List.forall_mem_cons.1 hxs
      have hstep : tokens.go (x :: (xs ++ rest)) word = tokens.go (xs ++ rest) (x :: word) := by
        cases word <;> simp only [tokens.go, hx, Bool.false_eq_true, if_false]
      rw [List.cons_append, hstep, ih hxs (List.cons_ne_nil _ _), List.reverse_cons,
        List.append_assoc, List.singleton_append]
  obtain ⟨c, cs, rfl⟩ := List.exists_cons_of_ne_nil hne
  obtain ⟨hc, hcs⟩ := List.forall_mem_cons.1 htoken
  rw [tokens, List.cons_append, tokens.go, if_neg (by rw [hc]; exact Bool.false_ne_true),
    hgo hcs (List.cons_ne_nil _ _)]
  rfl

/-- A text without blanks at its ends that has one token is that token. -/
theorem eq_of_tokens_eq_singleton {cs token : List Char} (hstrip : strip cs = cs)
    (h : tokens cs = [token]) : cs = token := by
  have hhead := head?_strip cs
  have hlast := getLast?_strip cs
  rw [hstrip] at hhead hlast
  obtain ⟨word, rest, rfl, hword, hrest⟩ := exists_split isBlank cs
  cases word with
  | nil =>
    -- the text would begin with a blank
    cases rest with
    | nil => cases h
    | cons c rest =>
      have hblank := hrest c rfl
      rw [hhead c rfl] at hblank
      cases hblank
  | cons w ws =>
    rw [tokens_append (List.cons_ne_nil w ws) hword hrest] at h
    injection h with htoken hnone
    rcases List.eq_nil_or_concat' rest with rfl | ⟨front, c, rfl⟩
    · rw [List.append_nil, htoken]
    · -- the text would end in a blank
      have hblank := tokens_eq_nil_iff.1 hnone c
        (List.mem_append_right _ (List.mem_singleton_self c))
      rw [hlast c (by rw [← List.append_assoc, List.getLast?_concat]; rfl)] at hblank
      cases hblank

end HackToolchain.Text
