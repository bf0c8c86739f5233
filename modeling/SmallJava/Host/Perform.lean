/-
Performing the operations of the library on arguments. An operation is called with as many arguments
as its method has parameters; with fewer it is stuck.
-/
import SmallJava.Action
import SmallJava.Double.Power

namespace SmallJava

/-! ## Arguments -/

/-- The number an argument is. -/
def Action.number (v : Value) (method : String) (line : Nat) : Action Double :=
  match v with
  | .number x => pure x
  | _ => fail (.invalidArgument (.notNumber method v.kind) line)

/-- The text an argument is. -/
def Action.chars (v : Value) (method : String) (line : Nat) : Action (List Char) :=
  match v with
  | .text t => pure t.toList
  | _ => fail (.invalidArgument (.notText method v.kind) line)

/-- The integer a text writes. -/
def Action.integer (cs : List Char) (line : Nat) : Action Value :=
  match Double.integerOfText? cs with
  | some x => pure (.number x)
  | none => fail (.invalidArgument (.notInteger (.ofList cs)) line)

/-- The number a text writes. -/
def Action.decimal (cs : List Char) (method : String) (line : Nat) : Action Value :=
  match Double.ofText? cs with
  | some x => pure (.number x)
  | none => fail (.invalidArgument (.notDecimal method (.ofList cs)) line)

/-! ## Operations -/

/-- The function on numbers. -/
def NumberFunction.apply : NumberFunction → Double → Double
  | abs => .abs
  | sqrt => .sqrt
  | floor => .floor
  | ceil => .ceil
  | round => .roundHalfUp

/-- The operation on numbers. -/
def NumberOperation.apply : NumberOperation → Double → Double → Double
  | pow => .pow
  | max => .max
  | min => .min

/-- Prints each value on a line of its own. -/
def Action.printLines (line : Nat) : List Value → Action Unit
  | [] => pure ()
  | v :: vs => do
    let text ← ask (·.text v)
    print (text ++ "\n") line
    printLines line vs

/-- The answer of an embedded method. -/
def Reaction.answer (r : Reaction) (arguments : List Value) (line : Nat) : Action Value :=
  match r with
  | firstArgument => pure (arguments.headD .null)
  | argumentCount => pure (.number (.ofInt arguments.length))
  | callLine => pure (.number (.ofInt line))
  | failure => .fail (.invalidArgument .reaction line)

/-- Performs an operation called on the given line. -/
def HostOp.perform (op : HostOp) (arguments : List Value) (line : Nat) : Action Value :=
  match op, arguments with
  | .printLines, [] => do
    .print "\n" line
    return .null
  | .printLines, _ => do
    .printLines line arguments
    return .null
  | .print, v :: _ => do
    let text ← Action.ask (·.text v)
    .print text line
    return .null
  | .function f, v :: _ => do
    let x ← Action.number v ("Math." ++ f.name) line
    return .number (f.apply x)
  | .operation f, v :: w :: _ => do
    let x ← Action.number v ("Math." ++ f.name) line
    let y ← Action.number w ("Math." ++ f.name) line
    return .number (f.apply x y)
  | .parseInteger, v :: _ => do
    let cs ← Action.chars v "Integer.parseInt" line
    .integer cs line
  | .parseDecimal, v :: _ => do
    let cs ← Action.chars v "Double.parseDouble" line
    .decimal cs "Double.parseDouble" line
  | .nextLine, _ => do
    let cs ← Action.take Console.nextLine line
    return .text (.ofList cs)
  | .nextWord, _ => do
    let cs ← Action.take Console.nextWord line
    return .text (.ofList cs)
  | .nextInteger, _ => do
    let cs ← Action.take Console.nextWord line
    .integer cs line
  | .nextDecimal, _ => do
    let cs ← Action.take Console.nextWord line
    .decimal cs "Scanner.nextDouble" line
  | .react r, _ => r.answer arguments line
  | _, _ => .stuck

end SmallJava
