/-
Operators on values. Numbers are calculated with; the sum of a text and any value joins their texts.
-/
import SmallJava.Action
import SmallJava.Double.Arithmetic

namespace SmallJava

/-- The operator on numbers. -/
def Operator.calculate : Operator → Double → Double → Double
  | sum => .add
  | difference => .sub
  | product => .mul
  | quotient => .div
  | remainder => .rem

/-- The operator on values, if it has a meaning for them. -/
def Operator.apply? (op : Operator) (s : Store) (left right : Value) : Option Value :=
  match left, right with
  | .number x, .number y => some (.number (op.calculate x y))
  | .text _, _ => if op = .sum then some (.text (s.text left ++ s.text right)) else none
  | _, .text _ => if op = .sum then some (.text (s.text left ++ s.text right)) else none
  | _, _ => none

/-- Applies an operator that stands on the given line. -/
def Action.operate (op : Operator) (left right : Value) (line : Nat) : Action Value :=
  Action.demand fun s =>
    match op.apply? s left right with
    | some v => .done v
    | none => .fault (.typeMismatch op left.kind right.kind line)

end SmallJava
