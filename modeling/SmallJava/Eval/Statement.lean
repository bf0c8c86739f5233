/-
Statements. A class takes its methods with the scope it is declared in; of methods with one name the
last counts, static methods and the others apart.
-/
import SmallJava.Eval.Expr
import SmallJava.Eval.Import

namespace SmallJava

/-! ## Classes -/

/-- Makes a method of the program that was declared in the given scope. -/
def Store.newDeclared (scope : ScopeId) (m : MethodDecl) : Store → MethodId × Store :=
  Store.newMethod
    { name := m.signature.name
      params := m.signature.params.map (·.name)
      variadic := false
      closure := scope
      body := .declared m.signature.line m.body }

/-- Makes methods and puts each into the table it belongs to: the static ones into the first. -/
def Store.newMembers (scope : ScopeId) :
    List MethodDecl → Table Value → Table Value → Store → (Table Value × Table Value) × Store
  | [], statics, members, s => ((statics, members), s)
  | m :: ms, statics, members, s =>
    let (id, s) := s.newDeclared scope m
    let name := m.signature.name
    if m.signature.isStatic then newMembers scope ms (statics.insert name (.method id)) members s
    else newMembers scope ms statics (members.insert name (.method id)) s

/-- Makes a class of the program. -/
def Store.newUserClass (scope : ScopeId) (name : String) (methods : List MethodDecl) (s : Store) :
    ClassId × Store :=
  let ((statics, members), s) := Store.newMembers scope methods .empty .empty s
  s.newClass ⟨name, .user, statics, members⟩

/-! ## Statements -/

/-- The only argument a program is started with. -/
def entryArgument : Value := .text "hello world"

/-- The line a method was declared on; zero for one of the library. -/
def Method.line (m : Method) : Nat :=
  match m.body with
  | .declared line _ => line
  | .host _ => 0

/-- Looks for the entry point of a scope and calls it. -/
def Action.enter (call : Caller) (scope : ScopeId) : Action Unit := do
  match ← Action.ask (·.entryPoint? scope) with
  | some id =>
    let m ← Action.required (← Action.ask (·.methods[id.index]?))
    let _ ← call (.method id) [entryArgument] m.line
  | none => .fail .noEntryPoint

/-- Runs a statement in a scope. -/
def Statement.run (call : Caller) (scope : ScopeId) : Statement → Action Unit
  | .importPath path line => .importPath path line
  | .declareClass name methods _ => do
    let c ← Action.make (Store.newUserClass scope name methods)
    .bindName scope name (.ofClass c)
  | .expression value _ => do
    let _ ← value.eval call scope
  | .declareVariable _ name none _ => .bindName scope name .null
  | .declareVariable _ name (some value) _ => do
    let v ← value.eval call scope
    .bindName scope name v
  | .entry => .enter call scope

/-- Runs statements one after another. -/
def Statement.runAll (call : Caller) (scope : ScopeId) : List Statement → Action Unit
  | [] => pure ()
  | s :: ss => do
    s.run call scope
    Statement.runAll call scope ss

end SmallJava
