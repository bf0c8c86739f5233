/-
The history of a run: the evaluator once more, with the moments beside each action that it goes
through. A moment is the store after one step, be it a name that is bound or a thing that is made,
the values that are held then: operands, callees and arguments that wait for others, and the name
that the step binds if it is one of an import. Main statements: the actions are those of the
evaluator, and `imports_importPath`, the names that an import binds.
-/
import SmallJava.Proofs.Eval.Closed

namespace SmallJava

/-! ## Actions with their moments -/

/-- What there is at one point of a run: the store, the values that are held outside of it, and the
name that an import has just bound, if this is what was done. -/
structure Moment where
  store : Store
  held : List Value
  imported : Option String

/-- An action, and the moments it goes through when it starts in a world. -/
structure Watched (α : Type) where
  action : Action α
  moments : World → List Moment

namespace Watched

variable {α β : Type}

/-- An action that is one step; from then on values of its result are held. If it is a step of an
import, it comes with the name that it binds. -/
def step (x : Action α) (held : α → List Value) (imported : Option String := none) :
    Watched α where
  action := x
  moments w :=
    [{ store := (x w).2.store
       held := match (x w).1 with
         | .done a => held a
         | _ => []
       imported }]

/-- A step whose result holds no value. -/
def silent (x : Action α) : Watched α := step x fun _ => []

/-- A step to a value. -/
def value (x : Action Value) : Watched Value := step x fun v => [v]

/-- An action during which values are held. -/
def holding (vs : List Value) (x : Watched α) : Watched α where
  action := x.action
  moments w := (x.moments w).map fun m => { m with held := vs ++ m.held }

/-- One action after another; the second goes through nothing if it is not reached. -/
protected def bind (x : Watched α) (f : α → Watched β) : Watched β where
  action := x.action >>= fun a => (f a).action
  moments w := x.moments w ++
    match x.action w with
    | (.done a, v) => (f a).moments v
    | _ => []

instance : Monad Watched where
  pure a := ⟨pure a, fun _ => []⟩
  bind := Watched.bind

/-- The names that the imports of an action bind when it starts in a world. -/
def imports (x : Watched α) (w : World) : List String := (x.moments w).filterMap (·.imported)

@[simp] theorem action_step (x : Action α) (held : α → List Value) (imported : Option String) :
    (step x held imported).action = x := rfl

@[simp] theorem action_silent (x : Action α) : (silent x).action = x := rfl

@[simp] theorem action_value (x : Action Value) : (value x).action = x := rfl

@[simp] theorem action_holding (vs : List Value) (x : Watched α) :
    (holding vs x).action = x.action := rfl

@[simp] theorem action_pure (a : α) : (pure a : Watched α).action = pure a := rfl

@[simp] theorem action_bind (x : Watched α) (f : α → Watched β) :
    (x >>= f).action = x.action >>= fun a => (f a).action := rfl

theorem imports_holding (vs : List Value) (x : Watched α) (w : World) :
    (holding vs x).imports w = x.imports w := by
  simp only [imports, holding, List.filterMap_map]
  rfl

/-- The second of two actions imports nothing if it is not reached. -/
theorem imports_bind (x : Watched α) (f : α → Watched β) (w : World) :
    (x >>= f).imports w = x.imports w ++
      match x.action w with
      | (.done a, v) => (f a).imports v
      | _ => [] := by
  show ((Watched.bind x f).moments w).filterMap _ = _
  rw [Watched.bind, List.filterMap_append]
  congr 1
  generalize x.action w = r
  obtain ⟨outcome, v⟩ := r
  cases outcome <;> rfl

end Watched

/-! ## Steps of imports and class declarations -/

/-- The values in a table. -/
def Table.values (t : Table Value) : List Value := t.entries.map Prod.snd

namespace Watched

/-- Binds names in the global scope, one after another, as an import does. -/
def bindAll : List (String × Value) → Watched Unit
  | [] => pure ()
  | b :: bs => do
    holding (b.2 :: bs.map Prod.snd)
      (step (.bindName Store.globals b.1 b.2) (fun _ => []) (some b.1))
    bindAll bs

/-- The bindings that a path leads to. -/
def follow (path : List Segment) (line : Nat) : Action (List (String × Value)) :=
  .demand fun s =>
    match s.follow Store.globals path with
    | .ok bindings => .done bindings
    | .error segment => .fault (.importResolution (sourceOfPath path) segment line)

/-- Imports what a path leads to. -/
def importPath (path : List Segment) (line : Nat) : Watched Unit := do
  let bindings ← step (follow path line) (·.map Prod.snd)
  bindAll bindings

/-- Makes methods and puts each into the table it belongs to. -/
def newMembers (scope : ScopeId) :
    List MethodDecl → Table Value → Table Value → Watched (Table Value × Table Value)
  | [], statics, members => pure (statics, members)
  | m :: ms, statics, members => do
    let id ← holding (statics.values ++ members.values)
      (step (.make (Store.newDeclared scope m)) fun id => [.method id])
    if m.signature.isStatic then
      newMembers scope ms (statics.insert m.signature.name (.method id)) members
    else newMembers scope ms statics (members.insert m.signature.name (.method id))

/-- Makes a class of the program. -/
def newUserClass (scope : ScopeId) (name : String) (methods : List MethodDecl) :
    Watched ClassId := do
  let tables ← newMembers scope methods .empty .empty
  holding (tables.1.values ++ tables.2.values)
    (step (.make (Store.newClass ⟨name, .user, tables.1, tables.2⟩)) fun c => [.ofClass c])

theorem action_bindAll (bindings : List (String × Value)) :
    (bindAll bindings).action = .make fun s => ((), s.bindAll Store.globals bindings) := by
  induction bindings with
  | nil => rfl
  | cons b bindings ih =>
    rw [bindAll, action_bind, ih]
    rfl

@[simp] theorem action_importPath (path : List Segment) (line : Nat) :
    (importPath path line).action = .importPath path line := by
  rw [Action.importPath_eq, importPath, action_bind]
  congr 1
  funext bindings
  exact action_bindAll bindings

theorem imports_bindAll (bindings : List (String × Value)) (w : World) :
    (bindAll bindings).imports w = bindings.map Prod.fst := by
  induction bindings generalizing w with
  | nil => rfl
  | cons b bindings ih =>
    rw [bindAll, imports_bind, imports_holding]
    exact congrArg (b.1 :: ·) (ih ⟨w.store.bind Store.globals b.1 b.2, w.console⟩)

/-- An import binds the names that its path leads to, and none if it leads nowhere. -/
theorem imports_importPath (path : List Segment) (line : Nat) (w : World) :
    (importPath path line).imports w =
      match w.store.follow Store.globals path with
      | .ok bindings => bindings.map Prod.fst
      | .error _ => [] := by
  rw [importPath, imports_bind, action_step]
  simp only [follow, Action.demand]
  cases w.store.follow Store.globals path with
  | ok bindings => exact imports_bindAll bindings w
  | error segment => rfl

theorem action_newMembers (scope : ScopeId) (ms : List MethodDecl) (statics members : Table Value) :
    (newMembers scope ms statics members).action =
      .make (Store.newMembers scope ms statics members) := by
  induction ms generalizing statics members with
  | nil => rfl
  | cons m ms ih =>
    funext w
    rw [newMembers, action_bind, Action.bind_apply]
    by_cases hm : m.signature.isStatic = true
    · simp [Action.make, Store.newMembers, hm, ih]
    · simp [Action.make, Store.newMembers, hm, ih]

@[simp] theorem action_newUserClass (scope : ScopeId) (name : String) (methods : List MethodDecl) :
    (newUserClass scope name methods).action =
      .make (Store.newUserClass scope name methods) := by
  rw [newUserClass, action_bind, action_newMembers]
  rfl

end Watched

/-! ## The evaluator -/

/-- How a value is called, with the moments the call goes through. -/
def WatchedCaller : Type := Value → List Value → Nat → Watched Value

/-- What runs the statements of a method in a scope, with the moments it goes through. -/
def WatchedRunner : Type := ScopeId → List Statement → Watched Unit

/-- The calls without their moments. -/
def WatchedCaller.caller (call : WatchedCaller) : Caller := fun v arguments line =>
  (call v arguments line).action

/-- What runs statements, without the moments. -/
def WatchedRunner.runner (run : WatchedRunner) : Runner := fun scope statements =>
  (run scope statements).action

open Watched

mutual

/-- Brings an expression to its value. -/
def Expr.watched (call : WatchedCaller) (scope : ScopeId) : Expr → Watched Value
  | .literal v _ => value (pure v.value)
  | .name n line => value (.lookup scope n line)
  | .assign target e line =>
    match target with
    | .name n _ => do
      let v ← e.watched call scope
      holding [v] (silent (.bindName scope n v))
      return v
    | _ => silent (.fail (.notAssignable target.source line))
  | .binary op left right line => do
    let l ← left.watched call scope
    let r ← holding [l] (right.watched call scope)
    holding [l, r] (value (.operate op l r line))
  | .access parent member line => do
    let owner ← parent.watched call scope
    holding [owner] (value (.member owner member line))
  | .call callee arguments line => do
    let f ← callee.watched call scope
    let vs ← holding [f] (Expr.watchedAll call scope arguments)
    holding (f :: vs) (call f vs line)

/-- Brings expressions to their values, one after another. -/
def Expr.watchedAll (call : WatchedCaller) (scope : ScopeId) : List Expr → Watched (List Value)
  | [] => pure []
  | e :: es => do
    let v ← e.watched call scope
    let vs ← holding [v] (Expr.watchedAll call scope es)
    return v :: vs

end

/-- Looks for the entry point of a scope and calls it. -/
def Watched.enter (call : WatchedCaller) (scope : ScopeId) : Watched Unit := do
  match ← step (.ask (·.entryPoint? scope)) fun id => (id.map Value.method).toList with
  | some id =>
    let m ← silent (.required (← silent (.ask (·.methods[id.index]?))))
    let _ ← holding [.method id, entryArgument] (call (.method id) [entryArgument] m.line)
  | none => silent (.fail .noEntryPoint)

/-- Runs a statement in a scope. -/
def Statement.watched (call : WatchedCaller) (scope : ScopeId) : Statement → Watched Unit
  | .importPath path line => .importPath path line
  | .declareClass name methods _ => do
    let c ← newUserClass scope name methods
    holding [.ofClass c] (silent (.bindName scope name (.ofClass c)))
  | .expression value _ => do
    let _ ← value.watched call scope
  | .declareVariable _ name none _ => silent (.bindName scope name .null)
  | .declareVariable _ name (some value) _ => do
    let v ← value.watched call scope
    holding [v] (silent (.bindName scope name v))
  | .entry => .enter call scope

/-- Runs statements one after another. -/
def Statement.watchedAll (call : WatchedCaller) : WatchedRunner := fun scope statements =>
  match statements with
  | [] => pure ()
  | s :: ss => do
    s.watched call scope
    Statement.watchedAll call scope ss

/-- Calls a method, given what runs its statements. -/
def Method.watched (m : Method) (run : WatchedRunner) (arguments : List Value) (line : Nat) :
    Watched Value :=
  if !m.variadic && arguments.length != m.params.length then
    silent (.fail (.argumentCount m.name m.params.length arguments.length line))
  else
    match m.body with
    | .host op => value (op.perform arguments line)
    | .declared _ statements => do
      let bindings := Table.ofList (m.params.zip arguments)
      let scope ← silent (.make (Store.newScope bindings (some m.closure)))
      run scope statements
      return .null

/-- Calls a value, given what runs the statements of methods. -/
def Value.watched (run : WatchedRunner) : WatchedCaller := fun v arguments line =>
  match v with
  | .method id => do
    let m ← silent (.required (← silent (.ask (·.methods[id.index]?))))
    m.watched run arguments line
  | .ofClass id => do
    let object ← step (.make (Store.newInstance id)) fun object => [.object object]
    return .object object
  | _ => silent (.fail (.notCallable v.kind line))

/-- Calls a value, where calls may be nested at most `depth` deep. -/
def watchedWithin : Nat → WatchedCaller
  | 0 => Value.watched fun _ _ => silent .tooDeep
  | depth + 1 => Value.watched (Statement.watchedAll (watchedWithin depth))

/-! ## The actions are those of the evaluator -/

mutual

theorem Expr.action_watched (call : WatchedCaller) (scope : ScopeId) :
    ∀ e : Expr, (e.watched call scope).action = e.eval call.caller scope
  | .literal v _ => rfl
  | .name n line => rfl
  | .assign target value line => by
    cases target with
    | name n _ => simp [Expr.watched, Expr.eval, Expr.action_watched call scope value]
    | _ => rfl
  | .binary op left right line => by
    simp [Expr.watched, Expr.eval, Expr.action_watched call scope left,
      Expr.action_watched call scope right]
  | .access parent member line => by
    simp [Expr.watched, Expr.eval, Expr.action_watched call scope parent]
  | .call callee arguments line => by
    simp [Expr.watched, Expr.eval, Expr.action_watched call scope callee,
      Expr.action_watchedAll call scope arguments, WatchedCaller.caller]

theorem Expr.action_watchedAll (call : WatchedCaller) (scope : ScopeId) :
    ∀ es : List Expr, (Expr.watchedAll call scope es).action = Expr.evalAll call.caller scope es
  | [] => rfl
  | e :: es => by
    simp [Expr.watchedAll, Expr.evalAll, Expr.action_watched call scope e,
      Expr.action_watchedAll call scope es]

end

theorem Watched.action_enter (call : WatchedCaller) (scope : ScopeId) :
    (Watched.enter call scope).action = .enter call.caller scope := by
  simp only [Watched.enter, Action.enter, action_bind, action_step]
  congr 1
  funext id
  cases id <;> rfl

theorem Statement.action_watched (call : WatchedCaller) (scope : ScopeId) (s : Statement) :
    (s.watched call scope).action = s.run call.caller scope := by
  cases s with
  | importPath path line => exact Watched.action_importPath path line
  | declareClass name methods line => simp [Statement.watched, Statement.run]
  | expression value line => simp [Statement.watched, Statement.run, Expr.action_watched]
  | declareVariable type name value line =>
    cases value with
    | none => rfl
    | some value => simp [Statement.watched, Statement.run, Expr.action_watched]
  | entry => exact Watched.action_enter call scope

theorem Statement.runner_watchedAll (call : WatchedCaller) :
    (Statement.watchedAll call).runner = Statement.runAll call.caller := by
  funext scope ss
  induction ss with
  | nil => rfl
  | cons s ss ih =>
    show (s.watched call scope >>= fun _ => Statement.watchedAll call scope ss).action = _
    rw [action_bind, Statement.action_watched, show (Statement.watchedAll call scope ss).action =
      Statement.runAll call.caller scope ss from ih]
    rfl

theorem Method.action_watched (m : Method) (run : WatchedRunner) (arguments : List Value)
    (line : Nat) : (m.watched run arguments line).action = m.call run.runner arguments line := by
  unfold Method.watched Method.call
  split
  · rfl
  · cases m.body <;> rfl

theorem Value.caller_watched (run : WatchedRunner) :
    (Value.watched run).caller = Value.call run.runner := by
  funext v arguments line
  cases v with
  | method id => simp [WatchedCaller.caller, Value.watched, Value.call, Method.action_watched]
  | _ => rfl

/-- Without the moments the calls are those of the evaluator. -/
theorem caller_watchedWithin (depth : Nat) : (watchedWithin depth).caller = callWithin depth := by
  induction depth with
  | zero => exact Value.caller_watched _
  | succ depth ih =>
    rw [watchedWithin, callWithin, Value.caller_watched, Statement.runner_watchedAll, ih]

/-! ## The names a run imports -/

/-- The names imported while an expression comes to its value. -/
def Expr.imported (depth : Nat) (scope : ScopeId) (e : Expr) (w : World) : List String :=
  (e.watched (watchedWithin depth) scope).imports w

/-- The names imported while a statement runs. -/
def Statement.imported (depth : Nat) (scope : ScopeId) (s : Statement) (w : World) : List String :=
  (s.watched (watchedWithin depth) scope).imports w

/-- The names imported during a call. -/
def importedWithin (depth : Nat) (v : Value) (arguments : List Value) (line : Nat) (w : World) :
    List String :=
  (watchedWithin depth v arguments line).imports w

/-! ## Programs -/

/-- Runs a program in the global scope. -/
def Program.watched (depth : Nat) (p : Program) : Watched Unit :=
  Statement.watchedAll (watchedWithin depth) Store.globals p.statements

theorem Program.action_watched (depth : Nat) (p : Program) :
    (p.watched depth).action = p.run depth := by
  rw [Program.run, ← caller_watchedWithin, ← Statement.runner_watchedAll]
  rfl

/-- All moments of a run, from the library's store on. -/
def Program.history (depth : Nat) (p : Program) (console : Console) : List Moment :=
  ⟨Library.store, [], none⟩ :: (p.watched depth).moments ⟨Library.store, console⟩

theorem Program.start_mem_history (depth : Nat) (p : Program) (console : Console) :
    ⟨Library.store, [], none⟩ ∈ p.history depth console := List.mem_cons_self

/-- The moments of `x = null;`: the start, the value that is held, and the name that is bound. -/
example : ((Program.history 0 ⟨[.expression (.assign (.name "x" 1) (.literal .null 1) 1) 1]⟩
    (.start .empty none)).map fun m => (m.held, m.store.local? Store.globals "x")) =
      [([], none), ([.null], none), ([.null], some .null)] := by decide +kernel

end SmallJava
