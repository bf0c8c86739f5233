/-
Values as text, and their members. A class gives its static members, an instance those of its class,
and an instance of a class of the program also gives that class.
-/
import SmallJava.Double.Text
import SmallJava.Outcome
import SmallJava.Store.Basic

namespace SmallJava.Store

/-! ## Names of things -/

/-- The name of a package. -/
def packageName (s : Store) (id : PackageId) : String :=
  (s.packages[id.index]?.map (·.name)).getD ""

/-- The name of a class. -/
def className (s : Store) (id : ClassId) : String := (s.classes[id.index]?.map (·.name)).getD ""

/-- The name of the class of an instance. -/
def instanceClassName (s : Store) (id : InstanceId) : String :=
  (s.instances[id.index]?.map s.className).getD ""

/-- The name of a method. -/
def methodName (s : Store) (id : MethodId) : String := (s.methods[id.index]?.map (·.name)).getD ""

/-- The value as programs print it. -/
def text (s : Store) : Value → String
  | .text t => t
  | .number x => x.text
  | .null => "null"
  | .package id => "package " ++ s.packageName id
  | .ofClass id => "class " ++ s.className id
  | .object id => s.instanceClassName id ++ " instance"
  | .method id => "method " ++ s.methodName id

/-! ## Members -/

/-- The name under which an instance gives its class. -/
def classMember : String := "__class__"

/-- The member of a class that starts a program. -/
def entryMember : String := "main"

/-- What an instance of a class has under a name. -/
def instanceMember? (id : ClassId) (c : Class) (name : String) : Option Value :=
  match c.members.get? name with
  | some v => some v
  | none => if name = classMember ∧ c.origin = .user then some (.ofClass id) else none

/-- A member that was found, or the fault that there is none. -/
def foundMember (s : Store) (owner : Value) (name : String) (line : Nat) :
    Option Value → Outcome Value
  | some v => .done v
  | none => .fault (.undefinedMember (s.text owner) name line)

/-- The member of a value under a name. -/
def member (s : Store) (owner : Value) (name : String) (line : Nat) : Outcome Value :=
  match owner with
  | .package id =>
    match s.packages[id.index]? with
    | some p => s.foundMember owner name line (s.get? p.members name)
    | none => .stuck
  | .ofClass id =>
    match s.classes[id.index]? with
    | some c => s.foundMember owner name line (c.statics.get? name)
    | none => .stuck
  | .object id =>
    match s.instances[id.index]? with
    | some i =>
      match s.classes[i.index]? with
      | some c => s.foundMember owner name line (instanceMember? i c name)
      | none => .stuck
    | none => .stuck
  | _ => .fault (.notAccessible owner.kind name line)

/-! ## Entry points -/

/-- The method of the program that a class holds to be started by. -/
def entryMethod? (s : Store) (id : ClassId) : Option MethodId :=
  match s.classes[id.index]?.bind fun c => c.statics.get? entryMember with
  | some (.method m) => if (s.methods[m.index]?.map (·.isDeclared)).getD false then some m else none
  | _ => none

/-- The method that starts a value, if it is a class that has one. -/
def entryOf? (s : Store) : Value → Option MethodId
  | .ofClass id => s.entryMethod? id
  | _ => none

/-- The method that starts a program: that of the first name bound in the scope itself which names a
class that has one. -/
def entryPoint? (s : Store) (scope : ScopeId) : Option MethodId :=
  (s.localNames scope).findSome? fun name => (s.get? scope name).bind s.entryOf?

/-- What starts a class is its static member, where that is a method of the program. -/
theorem entryMethod?_eq_some {s : Store} {c : ClassId} {id : MethodId} :
    s.entryMethod? c = some id ↔ ∃ cls m, s.classes[c.index]? = some cls ∧
      cls.statics.get? "main" = some (.method id) ∧ s.methods[id.index]? = some m ∧
        m.isDeclared = true := by
  unfold entryMethod?
  constructor
  · intro h
    split at h
    · rename_i main hmain
      obtain ⟨cls, hcls, hget⟩ := Option.bind_eq_some_iff.1 hmain
      split at h
      · rename_i hdeclared
        cases h
        cases hm : s.methods[id.index]? with
        | none => rw [hm] at hdeclared; cases hdeclared
        | some m => exact ⟨cls, m, hcls, hget, rfl, by simpa [hm] using hdeclared⟩
      · cases h
    · cases h
  · rintro ⟨cls, m, hcls, hget, hm, hdeclared⟩
    have hget : cls.statics.get? entryMember = some (.method id) := hget
    simp [hcls, hget, hm, hdeclared]

/-- What starts a program starts a class. -/
theorem exists_entryMethod? {s : Store} {scope : ScopeId} {id : MethodId}
    (h : s.entryPoint? scope = some id) : ∃ c, s.entryMethod? c = some id := by
  obtain ⟨name, -, h⟩ := List.exists_of_findSome?_eq_some h
  obtain ⟨v, -, h⟩ := Option.bind_eq_some_iff.1 h
  cases v with
  | ofClass c => exact ⟨c, h⟩
  | _ => cases h

end SmallJava.Store
