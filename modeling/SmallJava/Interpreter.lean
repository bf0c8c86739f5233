/-
The interpreter: source text is read as a program in full before anything runs, and then runs in the
global scope of a store that holds the library.
-/
import SmallJava.Eval.Call
import SmallJava.Host.Library
import SmallJava.Parser.Statement
import SmallJava.Token.Lexer

namespace SmallJava

/-! ## Failures -/

/-- Why source text did not run to its end. -/
inductive Failure
  | lex (e : LexError)
  | parse (e : ParseError)
  | fault (f : Fault)
  | tooDeep
  | stuck

/-- The failure as a message. -/
def Failure.message : Failure → String
  | lex e => e.message
  | parse e => e.message
  | fault f => f.message
  | tooDeep => "Error: Calls are nested too deeply."
  | stuck => "Error: The program is stuck."

/-- The result of an outcome, or why there is none. -/
def Outcome.toExcept {α : Type} : Outcome α → Except Failure α
  | .done a => .ok a
  | .fault f => .error (.fault f)
  | .tooDeep => .error .tooDeep
  | .stuck => .error .stuck

/-! ## Source text -/

/-- What a parser reads at the start of source text. -/
def Parser.ofSource {α : Type} (p : Parser α) (source : String) : Except Failure α :=
  match Token.tokenize source with
  | .error e => .error (.lex e)
  | .ok toks =>
    match p toks with
    | .ok a _ => .ok a
    | .error e _ => .error (.parse e)

/-- The program that source text writes. -/
def Program.ofSource (source : String) : Except Failure Program := Parser.program.ofSource source

/-! ## Runs -/

/-- Runs a program in the global scope. -/
def Program.run (depth : Nat) (p : Program) : Action Unit :=
  Statement.runAll (callWithin depth) Store.globals p.statements

/-- Runs source text, with calls nested at most `depth` deep. -/
def runSource (depth : Nat) (source : String) (console : Console) : Except Failure Unit × World :=
  let world : World := ⟨Library.store, console⟩
  match Program.ofSource source with
  | .error e => (.error e, world)
  | .ok p =>
    let (outcome, world) := p.run depth world
    (outcome.toExcept, world)

end SmallJava
