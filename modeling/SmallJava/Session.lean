/-
Sessions: a world that is worked on step by step. A session can enter scopes inside the current one
and leave them again, bind values made for it, and ask what names and expressions mean. A step that
fails keeps what it did before it failed.
-/
import SmallJava.Interpreter
import SmallJava.Store.Inspect

namespace SmallJava

/-! ## Given values -/

/-- Values described from outside: packages, classes, instances and methods are made anew. -/
inductive Given
  | null
  | text (value : String)
  | number (value : Double)
  | package (name : String) (members : List (String × Given))
  | hostClass (name : String) (statics members : List (String × Given))
  | object (className : String) (members : List (String × Given))
  | method (name : String) (params : List String) (variadic : Bool) (reaction : Reaction)

instance : Inhabited Given := ⟨.null⟩

mutual

/-- Makes a given value. -/
def Given.make : Given → StateM Store Value
  | .null => return .null
  | .text t => return .text t
  | .number x => return .number x
  | .package name members => do
    return .package (← Store.newPackage name (.ofList (← Given.makeAll members)))
  | .hostClass name statics members => do
    let statics ← Given.makeAll statics
    let members ← Given.makeAll members
    return .ofClass (← Store.newClass ⟨name, .host, .ofList statics, .ofList members⟩)
  | .object className members => do
    let members ← Given.makeAll members
    let id ← Store.newClass ⟨className, .host, .empty, .ofList members⟩
    return .object (← Store.newInstance id)
  | .method name params variadic reaction =>
    let body := .host (.react reaction)
    return .method (← Store.newMethod ⟨name, params, variadic, Store.globals, body⟩)

/-- Makes given values, each with its name. -/
def Given.makeAll : List (String × Given) → StateM Store (List (String × Value))
  | [] => return []
  | (name, given) :: rest => do
    let v ← given.make
    return (name, v) :: (← Given.makeAll rest)

end

/-! ## Steps -/

/-- What a session can be told to do. -/
inductive Step
  | eval (source : String)
  | exec (source : String)
  | run (source : String)
  | enter
  | push
  | pop
  | bind (name : String) (value : Given)
  | get (name : String)
  | lookup (name : String) (line : Nat)
  | isLocal (name : String)
  | names
  | allNames
  | inspectScope
  | inspect (source : String)
  | equal (left right : String)
  | hasEntry (source : String)
  | member (source name : String) (line : Nat)
  | invoke (source : String) (arguments : List Given) (line : Nat)

/-- What a session answers to a step. -/
inductive Answer
  | done
  | depth (scopes : Nat)
  | value (v : Value)
  | meaning (v : Option Value)
  | truth (b : Bool)
  | names (names : List String)
  | details (text : String)

/-- A session: its world and the scopes it has entered, the current one first. -/
structure Session where
  world : World
  entered : List ScopeId

namespace Session

/-- The scope that steps work in. -/
def current (s : Session) : ScopeId := s.entered.headD Store.globals

/-- Does an action. -/
def perform {α : Type} (s : Session) (x : Action α) : Except Failure α × Session :=
  let (outcome, world) := x s.world
  (outcome.toExcept, { s with world })

/-- Does an action on what a parser reads at the start of source text. -/
def withSource {α β : Type} (s : Session) (p : Parser α) (source : String) (f : α → Action β) :
    Except Failure β × Session :=
  match p.ofSource source with
  | .error e => (.error e, s)
  | .ok a => s.perform (f a)

/-- Does an action on the value of an expression. -/
def withValue {α : Type} (depth : Nat) (s : Session) (source : String) (f : Value → Action α) :
    Except Failure α × Session :=
  s.withSource Parser.expression source fun e => e.eval (callWithin depth) s.current >>= f

/-- The statements of a program without its start. -/
def withoutEntry (p : Program) : List Statement := p.statements.filter (!·.isEntry)

/-- Takes a step, with calls nested at most `depth` deep. -/
def step (depth : Nat) (s : Session) : Step → Except Failure Answer × Session
  | .eval source => s.withValue depth source fun v => pure (.value v)
  | .exec source => s.withSource Parser.program source fun p => do
    Statement.runAll (callWithin depth) s.current (withoutEntry p)
    return .done
  | .run source => s.withSource Parser.program source fun p => do
    p.run depth
    return .done
  | .enter => s.perform do
    Action.enter (callWithin depth) s.current
    return .done
  | .push =>
    let (scope, store) := s.world.store.newScope .empty (some s.current)
    let entered := scope :: s.entered
    (.ok (.depth (entered.length + 1)), ⟨{ s.world with store }, entered⟩)
  | .pop =>
    let entered := s.entered.tail
    (.ok (.depth (entered.length + 1)), { s with entered })
  | .bind name value => s.perform do
    Action.bindName s.current name (← Action.make value.make)
    return .done
  | .get name => s.perform do
    return .meaning (← Action.ask (·.get? s.current name))
  | .lookup name line => s.perform do
    return .value (← Action.lookup s.current name line)
  | .isLocal name => s.perform do
    return .truth (← Action.ask (·.local? s.current name)).isSome
  | .names => s.perform do
    return .names (← Action.ask (·.localNames s.current))
  | .allNames => s.perform do
    return .names (← Action.ask (·.allNames s.current))
  | .inspectScope => s.perform do
    return .details (← Action.ask (·.inspectScope s.current))
  | .inspect source => s.withValue depth source fun v => do
    return .details (← Action.ask (·.inspect v))
  | .equal left right =>
    match s.withValue depth left pure with
    | (.error e, s) => (.error e, s)
    | (.ok l, s) => s.withValue depth right fun r => pure (.truth (l.equal r))
  | .hasEntry source => s.withValue depth source fun v => do
    return .truth (← Action.ask (·.entryOf? v)).isSome
  | .member source name line => s.withValue depth source fun v => do
    return .value (← Action.member v name line)
  | .invoke source arguments line => s.withValue depth source fun v => do
    let arguments ← Action.make (arguments.mapM Given.make)
    return .value (← callWithin depth v arguments line)

end Session

end SmallJava
