/-
Values in detail: what they are and the names of what they hold, never the values they hold, which
may lead back to them.
-/
import SmallJava.Store.Member
import SmallJava.Text.Visible

namespace SmallJava.Store

/-! ## Parts -/

/-- A list of names. -/
def inspectNames (names : List String) : String :=
  "[" ++ String.intercalate ", " (names.map Text.visible) ++ "]"

/-- A record with its fields; an open one has others that are not shown. -/
def inspectRecord (name : String) (fields : List (String × String)) (isOpen : Bool) : String :=
  let shown := fields.map fun f => f.1 ++ ": " ++ f.2
  name ++ " \x7b " ++ String.intercalate ", " (shown ++ if isOpen then [".."] else []) ++ " \x7d"

/-- A truth value. -/
def inspectBool (b : Bool) : String := if b then "true" else "false"

/-- Where a class comes from. -/
def inspectOrigin : Origin → String
  | .user => "User"
  | .host => "Host"

/-! ## Records -/

/-- A package with the names of its members. -/
def inspectPackage (s : Store) (p : Package) : String :=
  inspectRecord "Package"
    [("name", Text.visible p.name), ("members", inspectNames (s.localNames p.members))] false

/-- A class with the names of its members. -/
def inspectClass (c : Class) : String :=
  inspectRecord "Class"
    [("name", Text.visible c.name), ("kind", inspectOrigin c.origin),
      ("statics", inspectNames c.statics.names), ("instance_members", inspectNames c.members.names)]
    false

/-- A method with its parameters. -/
def inspectMethod (m : Method) : String :=
  inspectRecord "Method"
    [("name", Text.visible m.name), ("params", inspectNames m.params),
      ("variadic", inspectBool m.variadic), ("user_defined", inspectBool m.isDeclared)]
    true

/-- A scope with the names bound in it. -/
def inspectScope (s : Store) (scope : ScopeId) : String :=
  inspectRecord "Environment"
    [("keys", inspectNames (s.localNames scope)),
      ("has_parent", inspectBool (s.parent? scope).isSome)]
    false

/-! ## Values -/

/-- A value in detail. -/
def inspect (s : Store) : Value → String
  | .text t => "String(" ++ Text.visible t ++ ")"
  | .number x => "Number(" ++ x.detailed ++ ")"
  | .null => "Null"
  | .package id => "Package(" ++ ((s.packages[id.index]?).map s.inspectPackage).getD "" ++ ")"
  | .ofClass id => "Class(" ++ ((s.classes[id.index]?).map inspectClass).getD "" ++ ")"
  | .object id =>
    let record := inspectRecord "Instance" [("class", Text.visible (s.instanceClassName id))] true
    "Instance(" ++ record ++ ")"
  | .method id => "Method(" ++ ((s.methods[id.index]?).map inspectMethod).getD "" ++ ")"

end SmallJava.Store
