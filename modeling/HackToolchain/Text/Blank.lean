/-!
# Blank characters

The characters that separate tokens, and the three operations that only depend on them: cutting
blanks off both ends, splitting into tokens, and removing the part of a line that follows a
comment mark.

The blank characters are those of the Unicode property `White_Space` together with the four
information separators U+001C to U+001F.  The zero-width characters are not blank.
-/

namespace HackToolchain.Text

/-- A blank character. -/
def isBlank (c : Char) : Bool :=
  let n := c.toNat
  (9 ≤ n && n ≤ 13) || (28 ≤ n && n ≤ 32) || n == 0x85 || n == 0xA0 || n == 0x1680 ||
    (0x2000 ≤ n && n ≤ 0x200A) || n == 0x2028 || n == 0x2029 || n == 0x202F || n == 0x205F ||
    n == 0x3000

/-! ### Ends of a text -/

/-- The text without the blanks in front. -/
def stripLeft (cs : List Char) : List Char :=
  cs.dropWhile isBlank

/-- The text without the blanks behind. -/
def stripRight (cs : List Char) : List Char :=
  (cs.reverse.dropWhile isBlank).reverse

/-- The text without the blanks on either side. -/
def strip (cs : List Char) : List Char :=
  stripRight (stripLeft cs)

@[simp] theorem strip_nil : strip [] = [] := rfl

/-! ### Tokens -/

/-- Splits the rest of a text into tokens; `word` is the token under way, last character first. -/
def tokens.go : List Char → List Char → List (List Char)
  | [], [] => []
  | [], c :: word => [(c :: word).reverse]
  | c :: cs, word =>
    if isBlank c then
      match word with
      | [] => tokens.go cs []
      | w :: word => (w :: word).reverse :: tokens.go cs []
    else
      tokens.go cs (c :: word)

/-- The maximal runs of characters that are not blank, in order. -/
def tokens (cs : List Char) : List (List Char) :=
  tokens.go cs []

@[simp] theorem tokens_nil : tokens [] = [] := rfl

/-! ### Comments -/

/-- The part of a text before the first occurrence of two slashes. -/
def beforeSlashes : List Char → List Char
  | '/' :: '/' :: _ => []
  | c :: cs => c :: beforeSlashes cs
  | [] => []

/-- The part of a text before the first occurrence of a character. -/
def before (mark : Char) (cs : List Char) : List Char :=
  cs.takeWhile (· != mark)

/-- The part of a text after the first occurrence of a character; nothing if there is none. -/
def after (mark : Char) (cs : List Char) : List Char :=
  (cs.dropWhile (· != mark)).drop 1

end HackToolchain.Text
