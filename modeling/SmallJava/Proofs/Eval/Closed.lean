/-
Properties of runs. A property that the few actions have which touch a world, and that one action
after another has if both have it, is a property of every run; of what can be made in a store, only
what evaluation makes needs to be looked at. Main statements: `Action.ClosedInRuns.runAll`,
`Action.ClosedInRuns.callWithin`, `Action.Closed.program`.
-/
import SmallJava.Interpreter

namespace SmallJava

/-! ## Closed properties -/

/-- The property passes from actions to one after another, and the actions have it that look at the
store, make something in it, print, or read the input. -/
structure Action.Closed (P : ∀ {α : Type}, Action α → Prop) : Prop where
  bind : ∀ {α β : Type} {x : Action α} {f : α → Action β}, P x → (∀ a, P (f a)) → P (x >>= f)
  demand : ∀ {α : Type} (question : Store → Outcome α), P (demand question)
  make : ∀ {α : Type} (f : Store → α × Store), P (make f)
  print : ∀ (text : String) (line : Nat), P (print text line)
  nextLine : ∀ line : Nat, P (take Console.nextLine line)
  nextWord : ∀ line : Nat, P (take Console.nextWord line)

/-- What evaluation makes in a store but for the classes it declares: it binds names, enters scopes
inside others, and makes instances. -/
inductive Store.MadeInCalls : ∀ {α : Type}, (Store → α × Store) → Prop
  | bind (scope : ScopeId) (name : String) (v : Value) :
      MadeInCalls fun s => ((), s.bind scope name v)
  | bindAll (scope : ScopeId) (bindings : List (String × Value)) :
      MadeInCalls fun s => ((), s.bindAll scope bindings)
  | newScope (bindings : Table Value) (closure : ScopeId) :
      MadeInCalls (Store.newScope bindings (some closure))
  | newInstance (c : ClassId) : MadeInCalls (Store.newInstance c)

/-- What evaluation makes but for classes are scopes and instances, and no instance is lost. -/
theorem Store.MadeInCalls.exists_eq {α : Type} {f : Store → α × Store} (hf : MadeInCalls f)
    (s : Store) : ∃ scopes instances, s.instances.toList <+: instances.toList ∧
      (f s).2 = { s with scopes, instances } := by
  cases hf with
  | bind scope name v => exact ⟨_, s.instances, List.prefix_rfl, rfl⟩
  | bindAll scope bindings =>
    obtain ⟨scopes, h⟩ := exists_bindAll scope bindings s
    exact ⟨scopes, s.instances, List.prefix_rfl, h⟩
  | newScope bindings closure => exact ⟨_, s.instances, List.prefix_rfl, rfl⟩
  | newInstance c => exact ⟨s.scopes, s.instances.push c, by simp, rfl⟩

/-- As `Closed`, but asks of the actions that make something only those of evaluation, and of none
that declares a class. -/
structure Action.ClosedInCalls (P : ∀ {α : Type}, Action α → Prop) : Prop where
  bind : ∀ {α β : Type} {x : Action α} {f : α → Action β}, P x → (∀ a, P (f a)) → P (x >>= f)
  demand : ∀ {α : Type} (question : Store → Outcome α), P (demand question)
  make : ∀ {α : Type} {f : Store → α × Store}, Store.MadeInCalls f → P (make f)
  print : ∀ (text : String) (line : Nat), P (print text line)
  nextLine : ∀ line : Nat, P (take Console.nextLine line)
  nextWord : ∀ line : Nat, P (take Console.nextWord line)

/-- As `ClosedInCalls`, but asks also of the actions that declare classes. -/
structure Action.ClosedInRuns (P : ∀ {α : Type}, Action α → Prop) : Prop extends
    Action.ClosedInCalls P where
  newUserClass : ∀ (scope : ScopeId) (name : String) (methods : List MethodDecl),
    P (Action.make (Store.newUserClass scope name methods))

/-- An import looks its bindings up before it makes them. -/
theorem Action.importPath_eq (path : List Segment) (line : Nat) :
    importPath path line =
      (demand fun s => match s.follow Store.globals path with
        | .ok bindings => .done bindings
        | .error segment => .fault (.importResolution (sourceOfPath path) segment line)) >>=
      fun bindings => make fun s => ((), s.bindAll Store.globals bindings) := by
  funext w
  simp only [importPath, bind_apply, demand]
  cases w.store.follow Store.globals path <;> rfl

namespace Action.ClosedInCalls

variable {P : ∀ {α : Type}, Action α → Prop} (h : ClosedInCalls P) {α : Type}

include h

/-! ## Simple actions -/

theorem pure (a : α) : P (Pure.pure a : Action α) := h.demand fun _ => .done a

theorem fail (e : Fault) : P (Action.fail e : Action α) := h.demand fun _ => .fault e

theorem tooDeep : P (Action.tooDeep : Action α) := h.demand fun _ => .tooDeep

theorem stuck : P (Action.stuck : Action α) := h.demand fun _ => .stuck

theorem ask (question : Store → α) : P (Action.ask question) := h.demand fun s => .done (question s)

theorem required (a : Option α) : P (Action.required a) := by
  cases a with
  | none => exact h.stuck
  | some a => exact h.pure a

theorem bindName (scope : ScopeId) (name : String) (v : Value) :
    P (Action.bindName scope name v) := h.make (.bind scope name v)

theorem lookup (scope : ScopeId) (name : String) (line : Nat) :
    P (Action.lookup scope name line) := h.demand _

theorem importPath (path : List Segment) (line : Nat) : P (Action.importPath path line) := by
  rw [importPath_eq]
  exact h.bind (h.demand _) fun bindings => h.make (.bindAll Store.globals bindings)

/-! ## Operations -/

theorem number (v : Value) (method : String) (line : Nat) : P (Action.number v method line) := by
  cases v with
  | number x => exact h.pure x
  | _ => exact h.fail _

theorem chars (v : Value) (method : String) (line : Nat) : P (Action.chars v method line) := by
  cases v with
  | text t => exact h.pure t.toList
  | _ => exact h.fail _

theorem integer (cs : List Char) (line : Nat) : P (Action.integer cs line) := by
  unfold Action.integer
  cases Double.integerOfText? cs with
  | none => exact h.fail _
  | some x => exact h.pure _

theorem decimal (cs : List Char) (method : String) (line : Nat) :
    P (Action.decimal cs method line) := by
  unfold Action.decimal
  cases Double.ofText? cs with
  | none => exact h.fail _
  | some x => exact h.pure _

theorem printLines (line : Nat) (vs : List Value) : P (Action.printLines line vs) := by
  induction vs with
  | nil => exact h.pure ()
  | cons v vs ih => exact h.bind (h.ask _) fun _ => h.bind (h.print _ line) fun _ => ih

theorem answer (r : Reaction) (arguments : List Value) (line : Nat) :
    P (r.answer arguments line) := by
  cases r with
  | failure => exact h.fail _
  | _ => exact h.pure _

theorem perform (op : HostOp) (arguments : List Value) (line : Nat) :
    P (op.perform arguments line) := by
  unfold HostOp.perform
  split
  · exact h.bind (h.print _ line) fun _ => h.pure _
  · exact h.bind (h.printLines line _) fun _ => h.pure _
  · exact h.bind (h.ask _) fun _ => h.bind (h.print _ line) fun _ => h.pure _
  · exact h.bind (h.number _ _ line) fun _ => h.pure _
  · exact h.bind (h.number _ _ line) fun _ => h.bind (h.number _ _ line) fun _ => h.pure _
  · exact h.bind (h.chars _ _ line) fun _ => h.integer _ line
  · exact h.bind (h.chars _ _ line) fun _ => h.decimal _ _ line
  · exact h.bind (h.nextLine line) fun _ => h.pure _
  · exact h.bind (h.nextWord line) fun _ => h.pure _
  · exact h.bind (h.nextWord line) fun _ => h.integer _ line
  · exact h.bind (h.nextWord line) fun _ => h.decimal _ _ line
  · exact h.answer _ _ line
  · exact h.stuck

/-! ## Expressions -/

variable {call : Caller}

mutual

theorem eval (hc : ∀ v arguments line, P (call v arguments line)) (scope : ScopeId) :
    ∀ e : Expr, P (e.eval call scope)
  | .literal v _ => h.pure v.value
  | .name n line => h.lookup scope n line
  | .assign target value line => by
    cases target with
    | name n _ =>
      exact h.bind (eval hc scope value) fun v => h.bind (h.bindName scope n v) fun _ => h.pure v
    | _ => exact h.fail _
  | .binary op left right line =>
    h.bind (eval hc scope left) fun _ => h.bind (eval hc scope right) fun _ => h.demand _
  | .access parent member line => h.bind (eval hc scope parent) fun _ => h.demand _
  | .call callee arguments line =>
    h.bind (eval hc scope callee) fun f => h.bind (evalAll hc scope arguments) fun vs =>
      hc f vs line

theorem evalAll (hc : ∀ v arguments line, P (call v arguments line)) (scope : ScopeId) :
    ∀ es : List Expr, P (Expr.evalAll call scope es)
  | [] => h.pure []
  | e :: es =>
    h.bind (eval hc scope e) fun v => h.bind (evalAll hc scope es) fun vs => h.pure (v :: vs)

end

theorem enter (hc : ∀ v arguments line, P (call v arguments line)) (scope : ScopeId) :
    P (Action.enter call scope) := by
  refine h.bind (h.ask _) fun id => ?_
  cases id with
  | none => exact h.fail _
  | some id =>
    exact h.bind (h.ask _) fun m => h.bind (h.required m) fun m => h.bind (hc _ _ _) fun _ =>
      h.pure ()

end Action.ClosedInCalls

namespace Action.ClosedInRuns

variable {P : ∀ {α : Type}, Action α → Prop} (h : ClosedInRuns P) {call : Caller}

include h

/-! ## Statements -/

theorem run (hc : ∀ v arguments line, P (call v arguments line)) (scope : ScopeId)
    (s : Statement) : P (s.run call scope) := by
  cases s with
  | importPath path line => exact h.importPath path line
  | declareClass name methods line =>
    exact h.bind (h.newUserClass scope name methods) fun _ => h.bindName scope name _
  | expression value line => exact h.bind (h.eval hc scope value) fun _ => h.pure ()
  | declareVariable type name value line =>
    cases value with
    | none => exact h.bindName scope name .null
    | some value => exact h.bind (h.eval hc scope value) fun v => h.bindName scope name v
  | entry => exact h.enter hc scope

/-- A closed property is one of every block if it is one of calls. -/
theorem runAll (hc : ∀ v arguments line, P (call v arguments line)) (scope : ScopeId)
    (ss : List Statement) : P (Statement.runAll call scope ss) := by
  induction ss with
  | nil => exact h.pure ()
  | cons s ss ih => exact h.bind (h.run hc scope s) fun _ => ih

/-! ## Calls -/

theorem callMethod {run : Runner} (hr : ∀ scope ss, P (run scope ss)) (m : Method)
    (arguments : List Value) (line : Nat) : P (m.call run arguments line) := by
  unfold Method.call
  split
  · exact h.fail _
  · cases m.body with
    | host op => exact h.perform op arguments line
    | declared _ statements =>
      exact h.bind (h.make (.newScope _ m.closure)) fun scope => h.bind (hr scope statements)
        fun _ => h.pure _

theorem callValue {run : Runner} (hr : ∀ scope ss, P (run scope ss)) (v : Value)
    (arguments : List Value) (line : Nat) : P (v.call run arguments line) := by
  cases v with
  | method id =>
    exact h.bind (h.ask _) fun m => h.bind (h.required m) fun m => h.callMethod hr m arguments line
  | ofClass id => exact h.bind (h.make (.newInstance id)) fun _ => h.pure _
  | _ => exact h.fail _

/-- A closed property is one of every call, however deep calls may be nested. -/
theorem callWithin (depth : Nat) (v : Value) (arguments : List Value) (line : Nat) :
    P (SmallJava.callWithin depth v arguments line) := by
  induction depth generalizing v arguments line with
  | zero => exact h.callValue (fun _ _ => h.tooDeep) v arguments line
  | succ depth ih => exact h.callValue (h.runAll ih) v arguments line

theorem program (depth : Nat) (p : Program) : P (p.run depth) :=
  h.runAll (h.callWithin depth) Store.globals p.statements

end Action.ClosedInRuns

/-! ## Whole runs -/

namespace Action.Closed

variable {P : ∀ {α : Type}, Action α → Prop} (h : Closed P)

include h

theorem inRuns : ClosedInRuns P :=
  { h with
    make := fun {_} {f} _ => h.make f
    newUserClass := fun _ _ _ => h.make _ }

theorem program (depth : Nat) (p : Program) : P (p.run depth) := h.inRuns.program depth p

end Action.Closed

end SmallJava
