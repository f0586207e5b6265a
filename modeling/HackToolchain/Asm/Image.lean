import HackToolchain.Asm.Assembler
import HackToolchain.Text.LineBreak

/-!
# Program images

The two written forms of a machine program.  A *binary image* has a line of sixteen binary digits
for each word; reading one passes over blank lines and blanks around a word.  A *listing* shows the
address, the hexadecimal form and the assembly text of each word.
-/

namespace HackToolchain.Asm

open HackToolchain.Text

/-- The sixteen binary digits of a word. -/
def binaryDigits (w : Int) : List Char :=
  let n := Word.toNat w
  (List.range 16).map fun i => if n.testBit (15 - i) then '1' else '0'

/-- The binary image of some words. -/
def binaryImage (words : List Int) : String :=
  String.join (words.map fun w => String.ofList (binaryDigits w ++ ['\n']))

/-- The value of some binary digits. -/
def binaryValue (cs : List Char) : Nat :=
  cs.foldl (fun n c => 2 * n + if c = '1' then 1 else 0) 0

/-- The text is the binary form of a word. -/
def isBinaryWord (cs : List Char) : Bool :=
  cs.length == 16 && cs.all fun c => c == '0' || c == '1'

/-- Reads the lines of a binary image, of which the first has the given number, behind the words
`done`. -/
def readBinaryImage.go (number : Nat) (done : Array Int) :
    List (List Char) → Except Error (Array Int)
  | [] => .ok done
  | line :: lines =>
    let cs := strip line
    if cs.isEmpty then readBinaryImage.go (number + 1) done lines
    else if isBinaryWord cs then
      readBinaryImage.go (number + 1) (done.push (binaryValue cs)) lines
    else .error (.line (.word (String.ofList cs)) number)

/-- Reads a binary image. -/
def readBinaryImage (text : String) : Except Error (Array Int) :=
  readBinaryImage.go 1 #[] (splitLines text.toList)

/-- The line of a listing for the word at an address. -/
def listingLine (address : Nat) (w : Int) : String :=
  toString address ++ " - " ++ String.ofList (upperHex 4 w) ++ " - " ++ Word.disassemble w

/-- The listing of some words. -/
def listing (words : List Int) : String :=
  "\n".intercalate (words.zipIdx.map fun (w, address) => listingLine address w)

/-- The words of a program text: assembly language if the name of its file says so, and a binary
image otherwise.  Both forms of a carriage return count as a line feed. -/
def readProgram (fileName : String) (text : String) : Except Error (Array Int) :=
  let cs := unifyNewlines text.toList
  if fileName.endsWith ".asm" then assemble ((splitLines cs).map String.ofList)
  else readBinaryImage (String.ofList cs)

end HackToolchain.Asm
