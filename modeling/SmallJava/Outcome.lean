/-
Outcomes of running a part of a program: a result, a fault, calls nested deeper than allowed, or
being stuck, which means that a reference leads nowhere or an operation lacks an argument.
-/
import SmallJava.Fault

namespace SmallJava

/-- What running a part of a program comes to. -/
inductive Outcome (α : Type)
  | done (result : α)
  | fault (f : Fault)
  | tooDeep
  | stuck

end SmallJava
