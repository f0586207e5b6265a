/-!
# Ranges of characters

A property of characters that has no formula is given as an ascending list of ranges of code
points, both ends included.
-/

namespace HackToolchain.Text

/-- A list of ranges of code points, each given by its first and its last. -/
abbrev CharRanges := List (Nat × Nat)

/-- The character lies in one of the ranges. -/
def CharRanges.contains (ranges : CharRanges) (c : Char) : Bool :=
  ranges.any fun range => range.1 ≤ c.toNat && c.toNat ≤ range.2

end HackToolchain.Text
