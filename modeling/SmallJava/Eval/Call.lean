/-
Calls. A method of the program runs in a new scope inside the one it was declared in, which binds
its parameters and nothing else; a class makes an instance of itself, whatever the arguments. How
deeply calls may be nested is a parameter, so every run comes to an outcome.
-/
import SmallJava.Eval.Statement
import SmallJava.Host.Perform

namespace SmallJava

/-- What runs the statements of a method in a scope. -/
def Runner : Type := ScopeId → List Statement → Action Unit

/-- Calls a method, given what runs its statements. -/
def Method.call (m : Method) (run : Runner) (arguments : List Value) (line : Nat) : Action Value :=
  if !m.variadic && arguments.length != m.params.length then
    .fail (.argumentCount m.name m.params.length arguments.length line)
  else
    match m.body with
    | .host op => op.perform arguments line
    | .declared _ statements => do
      let bindings := Table.ofList (m.params.zip arguments)
      let scope ← Action.make (Store.newScope bindings (some m.closure))
      run scope statements
      return .null

/-- Calls a value, given what runs the statements of methods. -/
def Value.call (run : Runner) : Caller := fun v arguments line =>
  match v with
  | .method id => do
    let m ← Action.required (← Action.ask (·.methods[id.index]?))
    m.call run arguments line
  | .ofClass id => do
    let object ← Action.make (Store.newInstance id)
    return .object object
  | _ => .fail (.notCallable v.kind line)

/-- Calls a value, where calls may be nested at most `depth` deep. -/
def callWithin : Nat → Caller
  | 0 => Value.call fun _ _ => .tooDeep
  | depth + 1 => Value.call fun scope statements =>
    Statement.runAll (callWithin depth) scope statements

end SmallJava
