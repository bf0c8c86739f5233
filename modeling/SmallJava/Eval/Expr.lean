/-
Expressions. Operands and arguments come to their values from left to right, and an assignment binds
its name in the scope the expression stands in, whatever the scopes around it bind.
-/
import SmallJava.Eval.Operation
import SmallJava.Syntax.Printer

namespace SmallJava

/-- How a value is called with arguments on a line. -/
def Caller : Type := Value → List Value → Nat → Action Value

/-- What a name means in a scope. -/
def Action.lookup (scope : ScopeId) (name : String) (line : Nat) : Action Value :=
  Action.demand fun s =>
    match s.get? scope name with
    | some v => .done v
    | none => .fault (.undefinedName name line)

/-- The member of a value under a name. -/
def Action.member (owner : Value) (name : String) (line : Nat) : Action Value :=
  Action.demand fun s => s.member owner name line

mutual

/-- Brings an expression to its value. -/
def Expr.eval (call : Caller) (scope : ScopeId) : Expr → Action Value
  | .literal v _ => pure v.value
  | .name n line => .lookup scope n line
  | .assign target value line =>
    match target with
    | .name n _ => do
      let v ← value.eval call scope
      .bindName scope n v
      return v
    | _ => .fail (.notAssignable target.source line)
  | .binary op left right line => do
    let l ← left.eval call scope
    let r ← right.eval call scope
    .operate op l r line
  | .access parent member line => do
    let owner ← parent.eval call scope
    .member owner member line
  | .call callee arguments line => do
    let f ← callee.eval call scope
    let vs ← Expr.evalAll call scope arguments
    call f vs line

/-- Brings expressions to their values, one after another. -/
def Expr.evalAll (call : Caller) (scope : ScopeId) : List Expr → Action (List Value)
  | [] => pure []
  | e :: es => do
    let v ← e.eval call scope
    let vs ← Expr.evalAll call scope es
    return v :: vs

end

end SmallJava
