/-
Imports. A path is followed from the global scope through packages; what it leads to is known before
anything is bound, so an import that fails binds nothing.
-/
import SmallJava.Action
import SmallJava.Syntax.Printer

namespace SmallJava

/-- All that a scope gives a meaning to. -/
def Store.visible (s : Store) (scope : ScopeId) : List (String × Value) :=
  (s.allNames scope).filterMap fun name => (s.get? scope name).map (name, ·)

/-- The scope with the members of a value, if it is a package. -/
def Store.membersOf? (s : Store) : Value → Option ScopeId
  | .package id => s.packages[id.index]?.map (·.members)
  | _ => none

/-- The bindings a path leads to from a scope, or the step that leads nowhere. -/
def Store.follow (s : Store) (scope : ScopeId) :
    List Segment → Except String (List (String × Value))
  | [] => .ok []
  | .wildcard :: _ => .ok (s.visible scope)
  | .name n :: rest =>
    match s.get? scope n with
    | none => .error n
    | some v =>
      if rest = [] then .ok [(n, v)]
      else
        match s.membersOf? v with
        | some members => s.follow members rest
        | none => .error n

/-- Binds names in a scope, one after another. -/
def Store.bindAll (scope : ScopeId) (bindings : List (String × Value)) (s : Store) : Store :=
  bindings.foldl (fun s b => s.bind scope b.1 b.2) s

/-- Binding names changes nothing but scopes. -/
theorem Store.exists_bindAll (scope : ScopeId) (bindings : List (String × Value)) (s : Store) :
    ∃ scopes, s.bindAll scope bindings = { s with scopes } := by
  induction bindings generalizing s with
  | nil => exact ⟨s.scopes, rfl⟩
  | cons b bindings ih => exact ih (s.bind scope b.1 b.2)

/-- Imports what a path leads to into the global scope. -/
def Action.importPath (path : List Segment) (line : Nat) : Action Unit := fun w =>
  match w.store.follow Store.globals path with
  | .ok bindings => (.done (), { w with store := w.store.bindAll Store.globals bindings })
  | .error segment => (.fault (.importResolution (sourceOfPath path) segment line), w)

end SmallJava
