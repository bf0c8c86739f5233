/-
What the methods of the library do. An operation is data: its meaning is given where it is
performed, so methods can be stored and compared like any other value.
-/

namespace SmallJava

/-- Functions of one number. -/
inductive NumberFunction
  | abs | sqrt | floor | ceil | round
deriving DecidableEq, Repr

/-- Functions of two numbers. -/
inductive NumberOperation
  | pow | max | min
deriving DecidableEq, Repr

/-- What an embedded method answers: its first argument, how many arguments it got, the line of its
call, or a failure. -/
inductive Reaction
  | firstArgument | argumentCount | callLine | failure
deriving DecidableEq, Repr

/-- What a method of the library does. -/
inductive HostOp
  | printLines | print
  | function (f : NumberFunction)
  | operation (f : NumberOperation)
  | parseInteger | parseDecimal
  | nextLine | nextWord | nextInteger | nextDecimal
  | react (r : Reaction)
deriving DecidableEq, Repr

/-- The name a function has among the members of its class. -/
def NumberFunction.name : NumberFunction → String
  | abs => "abs"
  | sqrt => "sqrt"
  | floor => "floor"
  | ceil => "ceil"
  | round => "round"

/-- The name an operation has among the members of its class. -/
def NumberOperation.name : NumberOperation → String
  | pow => "pow"
  | max => "max"
  | min => "min"

end SmallJava
