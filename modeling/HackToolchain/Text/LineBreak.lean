/-!
# Lines

Three views of the lines of a text.

* `splitLines` ends a line at any of the eleven line boundaries: line feed, carriage return, the
  two together, vertical tab, form feed, the information separators U+001C to U+001E, next line,
  line separator and paragraph separator.  A boundary at the very end opens no further line.
* `unifyNewlines` writes the two forms that use a carriage return as a line feed, which is what
  reading a text file does.
* `feedLines` ends a line at line feeds alone.
-/

namespace HackToolchain.Text

/-- The characters that end a line on their own. -/
def isLineBreak (c : Char) : Bool :=
  let n := c.toNat
  (10 ≤ n && n ≤ 13) || (28 ≤ n && n ≤ 30) || n == 0x85 || n == 0x2028 || n == 0x2029

/-- Splits the rest of a text; `line` is the line under way, last character first, and `lines`
holds those already ended. -/
def splitLines.go : List Char → List Char → Array (List Char) → Array (List Char)
  | [], [], lines => lines
  | [], c :: line, lines => lines.push (c :: line).reverse
  | '\r' :: '\n' :: cs, line, lines => splitLines.go cs [] (lines.push line.reverse)
  | c :: cs, line, lines =>
    if isLineBreak c then splitLines.go cs [] (lines.push line.reverse)
    else splitLines.go cs (c :: line) lines

/-- The lines of a text, without what ends them. -/
def splitLines (cs : List Char) : List (List Char) :=
  (splitLines.go cs [] #[]).toList

@[simp] theorem splitLines_nil : splitLines [] = [] := rfl

/-- Puts the rest of a text behind `done`, which is kept last character first. -/
def unifyNewlines.go : List Char → List Char → List Char
  | [], done => done.reverse
  | '\r' :: '\n' :: cs, done => unifyNewlines.go cs ('\n' :: done)
  | '\r' :: cs, done => unifyNewlines.go cs ('\n' :: done)
  | c :: cs, done => unifyNewlines.go cs (c :: done)

/-- The text with every carriage return, and every carriage return before a line feed, written as
one line feed. -/
def unifyNewlines (cs : List Char) : List Char :=
  unifyNewlines.go cs []

/-- Splits the rest of a text at line feeds; the second component is the unfinished last line. -/
def feedLines.go : List Char → List Char → Array (List Char) → Array (List Char) × List Char
  | [], line, lines => (lines, line.reverse)
  | '\n' :: cs, line, lines => feedLines.go cs [] (lines.push line.reverse)
  | c :: cs, line, lines => feedLines.go cs (c :: line) lines

/-- The lines of a text that a line feed ends, without it, and what stands after the last one. -/
def feedLines (cs : List Char) : List (List Char) × List Char :=
  let (lines, rest) := feedLines.go cs [] #[]
  (lines.toList, rest)

/-- The text without one line feed at its end. -/
def dropFinalFeed (cs : List Char) : List Char :=
  if cs.getLast? == some '\n' then cs.dropLast else cs

/-- The texts joined by line feeds, with one more after the last. -/
def unlines (lines : List String) : String :=
  "\n".intercalate lines ++ "\n"

end HackToolchain.Text
