/-
The command line. It runs a script given as an argument or in a file, or prints it as its tree
reads; a failure is told on the error stream.
-/
import SmallJava.Interpreter
import SmallJava.Syntax.Printer

namespace SmallJava.CommandLine

/-! ## Arguments -/

/-- What the command line asks for. -/
structure Request where
  inFile : Bool
  printTree : Bool
  contents : String

/-- How the program is called. -/
def usage : String := "Usage: smalljava [-f | --file] [--dump-ast] <CONTENTS>"

/-- Reads arguments: options in any order, and exactly one argument that is none. -/
def Request.ofArguments? : List String → Bool → Bool → Option String → Option Request
  | [], inFile, printTree, contents => contents.map fun c => ⟨inFile, printTree, c⟩
  | "-f" :: rest, _, printTree, contents => ofArguments? rest true printTree contents
  | "--file" :: rest, _, printTree, contents => ofArguments? rest true printTree contents
  | "--dump-ast" :: rest, inFile, _, contents => ofArguments? rest inFile true contents
  | c :: rest, inFile, printTree, none => ofArguments? rest inFile printTree (some c)
  | _ :: _, _, _, some _ => none

/-! ## Runs -/

/-- How deeply calls may be nested. -/
def depth : Nat := 20000

/-- Whether a run stopped because it asked for more input than it was given. -/
def wantsInput : Except Failure Unit → Bool
  | .error (.fault (.inputExhausted _)) => true
  | _ => false

/-- Runs a script on the lines read so far and prints what no earlier run has printed. A run that
asks for more is done again with one more line: what it printed before is then the start of what it
prints. -/
partial def runFrom (script : String) (input output : IO.FS.Stream) (lines : ByteArray)
    (printed : Nat) : IO (Except Failure Unit) := do
  let (result, world) := runSource depth script (Console.start lines none)
  let bytes := world.console.printed
  output.write (bytes.extract printed bytes.size)
  output.flush
  if wantsInput result then
    let line ← readLine input .empty
    if line.isEmpty then return result
    else runFrom script input output (lines ++ line) bytes.size
  else
    return result
where
  /-- Reads the bytes of a line, which need not be text. -/
  readLine (input : IO.FS.Stream) (line : ByteArray) : IO ByteArray := do
    let byte ← input.read 1
    if byte.isEmpty then return line
    else if byte[0]? = some 10 then return line ++ byte
    else readLine input (line ++ byte)

/-- Does what the command line asks for with a script. -/
def serve (printTree : Bool) (script : String) : IO (Except Failure Unit) := do
  let output ← IO.getStdout
  if printTree then
    match Program.ofSource script with
    | .error e => return .error e
    | .ok p =>
      output.putStr p.source
      return .ok ()
  else
    runFrom script (← IO.getStdin) output .empty 0

/-- Does what the command line asks for and gives the exit code. -/
def run (arguments : List String) : IO UInt32 := do
  match Request.ofArguments? arguments false false none with
  | none =>
    IO.eprintln usage
    return 2
  | some request =>
    let script ←
      if request.inFile then
        try pure (some (← IO.FS.readFile request.contents))
        catch _ => pure none
      else pure (some request.contents)
    match script with
    | none =>
      let file := request.contents
      IO.eprintln s!"Failed to read the input file '{file}'. Perhaps this file does not exist?"
      return 1
    | some script =>
      match ← serve request.printTree script with
      | .ok () => return 0
      | .error e =>
        IO.eprintln e.message
        return 1

end SmallJava.CommandLine

/-- The program. -/
def main (arguments : List String) : IO UInt32 := SmallJava.CommandLine.run arguments
