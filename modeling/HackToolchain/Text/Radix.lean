/-!
# Numbers in a base

The digits of a number in a base up to sixteen, with zeros in front, and a sign that counts towards
the width.
-/

namespace HackToolchain.Text

/-- Zeros in front of a text up to a width. -/
def padLeft (width : Nat) (cs : List Char) : List Char :=
  List.replicate (width - cs.length) '0' ++ cs

theorem length_padLeft (width : Nat) (cs : List Char) :
    (padLeft width cs).length = max width cs.length := by
  simp only [padLeft, List.length_append, List.length_replicate]
  omega

/-- The lower-case hexadecimal digits of a number, at least `width` of them. -/
def lowerHex (width n : Nat) : List Char :=
  padLeft width (Nat.toDigits 16 n)

/-- The upper-case hexadecimal text of an integer, at least `width` characters with its sign. -/
def upperHex (width : Nat) (n : Int) : List Char :=
  let digits := (Nat.toDigits 16 n.natAbs).map Char.toUpper
  if n < 0 then '-' :: padLeft (width - 1) digits else padLeft width digits

end HackToolchain.Text
