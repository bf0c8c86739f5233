/-
The store: all scopes, packages, classes, instances and methods a run has made, in the order it made
them. Nothing is ever taken out, and only the bindings of scopes change.
-/
import SmallJava.Host.Operation
import SmallJava.Table
import SmallJava.Value

namespace SmallJava

/-! ## What is stored -/

/-- A scope: the names bound in it and the scope around it. -/
structure Scope where
  bindings : Table Value
  parent : Option ScopeId

/-- A package: its members are the names bound in a scope of its own. -/
structure Package where
  name : String
  members : ScopeId
deriving DecidableEq, Repr

/-- Where a class comes from: the program or the library. -/
inductive Origin
  | user | host
deriving DecidableEq, Repr

/-- A class: the members it has itself and those its instances have. -/
structure Class where
  name : String
  origin : Origin
  statics : Table Value
  members : Table Value

/-- What a call of a method does: it runs statements of the program or performs an operation of the
library. -/
inductive MethodBody
  | declared (line : Nat) (statements : List Statement)
  | host (op : HostOp)

/-- A method. A call runs in a new scope inside `closure`; a variadic method takes any number of
arguments. -/
structure Method where
  name : String
  params : List String
  variadic : Bool
  closure : ScopeId
  body : MethodBody

/-- Whether a method is one of the program. -/
def Method.isDeclared (m : Method) : Bool :=
  match m.body with
  | .declared .. => true
  | .host _ => false

/-- All that a run has made; an instance is stored as its class. -/
structure Store where
  scopes : Array Scope
  packages : Array Package
  classes : Array Class
  instances : Array ClassId
  methods : Array Method

namespace Store

/-! ## Making things -/

/-- The scope that imports bind in, the first of every store. There is no other scope when it is
made, so it is in none: contexts stand on a root of their own. -/
def globals : ScopeId := ⟨0⟩

/-- The store with nothing but an empty global scope. -/
def initial : Store := ⟨#[⟨.empty, none⟩], #[], #[], #[], #[]⟩

/-- Makes a scope. -/
def newScope (bindings : Table Value) (parent : Option ScopeId) (s : Store) : ScopeId × Store :=
  (⟨s.scopes.size⟩, { s with scopes := s.scopes.push ⟨bindings, parent⟩ })

/-- Makes a package with the given members. -/
def newPackage (name : String) (members : Table Value) (s : Store) : PackageId × Store :=
  let (scope, s) := s.newScope members none
  (⟨s.packages.size⟩, { s with packages := s.packages.push ⟨name, scope⟩ })

/-- Makes a class. -/
def newClass (c : Class) (s : Store) : ClassId × Store :=
  (⟨s.classes.size⟩, { s with classes := s.classes.push c })

/-- Makes an instance of a class. -/
def newInstance (c : ClassId) (s : Store) : InstanceId × Store :=
  (⟨s.instances.size⟩, { s with instances := s.instances.push c })

/-- Makes a method. -/
def newMethod (m : Method) (s : Store) : MethodId × Store :=
  (⟨s.methods.size⟩, { s with methods := s.methods.push m })

/-- Binds a name in a scope, in place of an earlier binding there. -/
def bind (scope : ScopeId) (name : String) (value : Value) (s : Store) : Store :=
  { s with scopes := s.scopes.modify scope.index fun sc =>
      { sc with bindings := sc.bindings.insert name value } }

/-! ## Scopes -/

/-- What a scope itself binds a name to. -/
def local? (s : Store) (scope : ScopeId) (name : String) : Option Value :=
  s.scopes[scope.index]?.bind fun sc => sc.bindings.get? name

/-- The names bound in a scope itself, in ascending order. -/
def localNames (s : Store) (scope : ScopeId) : List String :=
  (s.scopes[scope.index]?.map fun sc => sc.bindings.names).getD []

/-- The scope around a scope. -/
def parent? (s : Store) (scope : ScopeId) : Option ScopeId :=
  s.scopes[scope.index]?.bind Scope.parent

/-- A scope and at most `bound` scopes around it, from the inside out. -/
def chainUpTo (s : Store) : Nat → ScopeId → List ScopeId
  | 0, scope => [scope]
  | bound + 1, scope =>
    match s.parent? scope with
    | some p => scope :: s.chainUpTo bound p
    | none => [scope]

/-- A scope and all scopes around it, from the inside out. A scope is made after the one around it,
so its index bounds their number, and the walk ends where there is no scope around the last one. -/
def chain (s : Store) (scope : ScopeId) : List ScopeId := s.chainUpTo scope.index scope

/-- What a name means in a scope: its binding in the nearest scope that has one. -/
def get? (s : Store) (scope : ScopeId) (name : String) : Option Value :=
  (s.chain scope).findSome? fun i => s.local? i name

/-- The names that mean something in a scope, in ascending order. -/
def allNames (s : Store) (scope : ScopeId) : List String :=
  Table.sortNames ((s.chain scope).flatMap s.localNames)

end Store

end SmallJava
