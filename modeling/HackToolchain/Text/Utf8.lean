/-!
# UTF-8 files

Files hold bytes and programs read text.  `Utf8.decode` reads a whole file; bytes that are not
UTF-8 give the first fault in them, with its place and what is wrong there.

A fault covers the bytes up to the first one that cannot continue the sequence.  A byte that
begins no sequence is a fault of its own; a sequence that the end of the file cuts short is a fault
that reaches to the end.

`Utf8.decodeBlocks` reads a file block by block, as a reader does that asks for one line at a time.
A sequence cut short by the end of a block waits for the next block.  When a fault turns up, what
the blocks before it hold has been read, and the place of the fault counts from the start of the
bytes at hand.
-/

namespace HackToolchain.Text

/-- What is wrong with a sequence of bytes. -/
inductive Utf8.Reason where
  /-- No sequence begins with this byte. -/
  | start
  /-- A byte does not continue the sequence before it. -/
  | continuation
  /-- The bytes end inside a sequence. -/
  | truncated
  deriving DecidableEq, Repr

/-- A fault in bytes read as UTF-8. -/
structure Utf8.Fault where
  /-- The place of its first byte. -/
  position : Nat
  /-- The number of its bytes. -/
  length : Nat
  /-- Its first byte. -/
  byte : UInt8
  /-- What is wrong. -/
  reason : Utf8.Reason
  deriving DecidableEq, Repr

namespace Utf8

/-- The wording of a reason. -/
def Reason.message : Reason → String
  | .start => "invalid start byte"
  | .continuation => "invalid continuation byte"
  | .truncated => "unexpected end of data"

/-- The message of a fault. -/
def Fault.message (fault : Fault) : String :=
  if fault.length = 1 then
    "'utf-8' codec can't decode byte 0x" ++ String.ofList (hexByte fault.byte) ++
      " in position " ++ toString fault.position ++ ": " ++ fault.reason.message
  else
    "'utf-8' codec can't decode bytes in position " ++ toString fault.position ++ "-" ++
      toString (fault.position + fault.length - 1) ++ ": " ++ fault.reason.message
where
  /-- The two lower-case hexadecimal digits of a byte. -/
  hexByte (b : UInt8) : List Char :=
    [Nat.digitChar (b.toNat / 16), Nat.digitChar (b.toNat % 16)]

/-! ### Finding the fault -/

/-- What stands at the front of some bytes. -/
inductive Front where
  /-- A character of this many bytes. -/
  | character (length : Nat)
  /-- A fault of this many bytes. -/
  | fault (length : Nat) (reason : Reason)
  deriving DecidableEq, Repr

/-- A byte that continues a sequence. -/
def isTail (b : UInt8) : Bool :=
  0x80 ≤ b && b < 0xC0

/-- The second byte may follow the first of a sequence: shorter forms of a character, surrogates
and code points beyond the last are ruled out here. -/
def mayFollow (first second : UInt8) : Bool :=
  isTail second &&
    !(first == 0xE0 && second < 0xA0) && !(first == 0xED && 0xA0 ≤ second) &&
    !(first == 0xF0 && second < 0x90) && !(first == 0xF4 && 0x90 ≤ second)

/-- Checks the bytes of a sequence after the first two, of which `want` are still to come and
`seen` have passed. -/
def tails : Nat → Nat → List UInt8 → Front
  | 0, seen, _ => .character seen
  | _ + 1, seen, [] => .fault seen .truncated
  | want + 1, seen, b :: bytes =>
    if isTail b then tails want (seen + 1) bytes else .fault seen .continuation

/-- Checks a sequence that begins with `first` and has `want` bytes after it. -/
def sequence (want : Nat) (first : UInt8) : List UInt8 → Front
  | [] => .fault 1 .truncated
  | b :: bytes => if mayFollow first b then tails (want - 1) 2 bytes else .fault 1 .continuation

/-- Checks the sequence at the front of some bytes, of which `first` is the first. -/
def front (first : UInt8) (bytes : List UInt8) : Front :=
  if first < 0x80 then .character 1
  else if first < 0xC2 then .fault 1 .start
  else if first < 0xE0 then sequence 1 first bytes
  else if first < 0xF0 then sequence 2 first bytes
  else if first < 0xF5 then sequence 3 first bytes
  else .fault 1 .start

/-- Looks for the first fault in some bytes, the first of which has the place `position`; `skip`
bytes in front belong to a character that has been checked. -/
def findFault.go : Nat → Nat → List UInt8 → Option Fault
  | _, _, [] => none
  | skip + 1, position, _ :: bytes => findFault.go skip (position + 1) bytes
  | 0, position, b :: bytes =>
    match front b bytes with
    | .character length => findFault.go (length - 1) (position + 1) bytes
    | .fault length reason => some ⟨position, length, b, reason⟩

/-- The first fault in some bytes. -/
def findFault (bytes : List UInt8) : Option Fault :=
  findFault.go 0 0 bytes

/-! ### Decoding and encoding -/

/-- Decodes bytes.  Bytes that are not text have a fault, so the last case does not arise. -/
def decode (bytes : ByteArray) : Except Fault String :=
  match String.fromUTF8? bytes with
  | some text => .ok text
  | none => .error ((findFault bytes.toList).getD ⟨0, 1, 0, .start⟩)

/-- The bytes of a text. -/
def encode (text : String) : ByteArray :=
  text.toUTF8

/-- Decoding gives back the text that was encoded. -/
theorem decode_encode (text : String) : decode (encode text) = .ok text := by
  simp [decode, encode, String.fromUTF8?, String.fromUTF8, text.isValidUTF8]

/-! ### Reading block by block -/

/-- The number of bytes in a block. -/
def blockSize : Nat := 8192

/-- Reads on from the place `i`; `carry` holds the bytes of an unfinished sequence and `text` what
has been read. -/
def decodeBlocks.go (bytes : ByteArray) (i : Nat) (carry : ByteArray) (text : String) :
    String × Option Fault :=
  if _h : i < bytes.size then
    let data := carry ++ bytes.extract i (i + blockSize)
    match findFault data.toList with
    | none =>
      decodeBlocks.go bytes (i + blockSize) ByteArray.empty
        (text ++ (String.fromUTF8? data).getD "")
    | some fault =>
      if fault.reason = .truncated then
        -- the sequence may go on in the next block
        decodeBlocks.go bytes (i + blockSize) (data.extract fault.position data.size)
          (text ++ (String.fromUTF8? (data.extract 0 fault.position)).getD "")
      else (text, some fault)
  else (text, findFault carry.toList)
  termination_by bytes.size - i
  decreasing_by all_goals simp only [blockSize]; omega

/-- Decodes bytes block by block, up to the first fault. -/
def decodeBlocks (bytes : ByteArray) : String × Option Fault :=
  decodeBlocks.go bytes 0 ByteArray.empty ""

end Utf8

end HackToolchain.Text
