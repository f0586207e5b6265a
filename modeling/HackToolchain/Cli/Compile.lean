import HackToolchain.Cli.Options
import HackToolchain.Cli.Session

/-!
# The command `compile`

Compiles a program into assembly language, and on request writes it as a binary image and as a
listing too.  An error in the program is reported before anything is written.
-/

namespace HackToolchain.Cli.Compile

open HackToolchain.Files HackToolchain.Text HackToolchain.Cli.Session

/-- An argument. -/
inductive Given where
  /-- The program. -/
  | source (path : String)
  /-- The file for the code. -/
  | output (path : Option String)
  /-- The code that starts a program is wanted, or not. -/
  | bootstrap (wanted : Bool)
  /-- Comments are wanted. -/
  | comments
  /-- The file for the binary image. -/
  | image (path : Option String)
  /-- The file for the listing. -/
  | listing (path : Option String)
  deriving DecidableEq, Repr

/-- The arguments of the command. -/
def grammar : Grammar Given where
  names :=
    [⟨"-h", .help⟩, ⟨"--help", .help⟩, ⟨"-o", .text .output⟩, ⟨"--output", .text .output⟩,
      ⟨"--bootstrap", .flag (.bootstrap true)⟩, ⟨"--no-bootstrap", .flag (.bootstrap false)⟩,
      ⟨"--comments", .flag .comments⟩, ⟨"--hack", .text .image⟩, ⟨"--hex", .text .listing⟩]
  operand := some .source

/-- What is asked for. -/
structure Request where
  /-- The program. -/
  source : String := ""
  /-- The file for the code. -/
  output : Option String := none
  /-- The code that starts a program is wanted; by default for directories alone. -/
  bootstrap : Option Bool := none
  /-- Comments are wanted. -/
  comments : Bool := false
  /-- The file for the binary image. -/
  image : Option String := none
  /-- The file for the listing. -/
  listing : Option String := none
  deriving DecidableEq, Repr

/-- The request with one more argument, which counts instead of an earlier one of its kind. -/
def Request.add (r : Request) : Given → Request
  | .source path => { r with source := path }
  | .output path => { r with output := fileName path }
  | .bootstrap wanted => { r with bootstrap := some wanted }
  | .comments => { r with comments := true }
  | .image path => { r with image := fileName path }
  | .listing path => { r with listing := fileName path }

/-- A compiled program. -/
structure Product where
  /-- The number of source files. -/
  count : Nat
  /-- The file for the code. -/
  output : Files.Path
  /-- The code. -/
  code : List String
  /-- The words, if they are needed. -/
  words : List Int

/-- Compiles the program that is asked for. -/
def produce (r : Request) : Action Product := do
  let found ← sources (Files.Path.ofText r.source)
  let output := (r.output.map Files.Path.ofText).getD found.output
  let code ← compile found.files (r.bootstrap.getD found.isDirectory) r.comments
  let words ← if r.image.isSome || r.listing.isSome then assemble code else pure []
  return ⟨found.files.length, output, code, words⟩

/-- The failure is an error in the program, and not one of the compiler. -/
def isReported : Failure → Bool
  | .compile (.reading .blank) | .compile (.internal _) | .missing _ => false
  | _ => true

/-- Reports an error in the program. -/
def reportError : Stop → Action Product
  | .failure cause =>
    if isReported cause then do
      printError ("error: " ++ cause.message)
      throw (.exit 1)
    else fail cause
  | stop => throw stop

/-- Compiles, and writes the files that are asked for. -/
def perform (r : Request) : Action Unit := do
  let product ← tryCatch (produce r) reportError
  writeText product.output (unlines product.code)
  if let some path := r.image then
    writeText (Files.Path.ofText path) (Asm.binaryImage product.words)
  if let some path := r.listing then
    writeText (Files.Path.ofText path) (Asm.listing product.words)
  printLine
    ("Translated " ++ toString product.count ++ " file(s) -> " ++ product.output.text)

/-- The command. -/
def command (arguments : List String) : Action Unit :=
  match grammar.parse arguments with
  | .error .help => throw (.exit 0)
  | .error .usage => throw (.exit 2)
  | .ok given => perform (given.foldl Request.add {})

end HackToolchain.Cli.Compile
