/-
Values. Texts, numbers and null are what they say; packages, classes, instances and methods are
references into a store, and are equal only if they are the same one.
-/
import SmallJava.Syntax.Basic

namespace SmallJava

/-! ## References -/

/-- A scope of a store. -/
structure ScopeId where
  index : Nat
deriving DecidableEq, Repr

/-- A package of a store. -/
structure PackageId where
  index : Nat
deriving DecidableEq, Repr

/-- A class of a store. -/
structure ClassId where
  index : Nat
deriving DecidableEq, Repr

/-- An instance in a store. -/
structure InstanceId where
  index : Nat
deriving DecidableEq, Repr

/-- A method of a store. -/
structure MethodId where
  index : Nat
deriving DecidableEq, Repr

/-! ## Values -/

/-- What an expression can come to. -/
inductive Value
  | text (value : String)
  | number (value : Double)
  | null
  | package (id : PackageId)
  | ofClass (id : ClassId)
  | object (id : InstanceId)
  | method (id : MethodId)
deriving DecidableEq

instance : Inhabited Value := ⟨.null⟩

/-- The value of a constant. -/
def Literal.value : Literal → Value
  | text s => .text s
  | number x => .number x
  | null => .null

/-- The kinds of values. -/
inductive Kind
  | text | number | null | package | ofClass | object | method
deriving DecidableEq, Repr

/-- The kind as messages name it. -/
def Kind.name : Kind → String
  | text => "string"
  | number => "number"
  | null => "null"
  | package => "package"
  | ofClass => "class"
  | object => "instance"
  | method => "method"

namespace Value

/-- The kind of a value. -/
def kind : Value → Kind
  | text _ => .text
  | number _ => .number
  | null => .null
  | package _ => .package
  | ofClass _ => .ofClass
  | object _ => .object
  | method _ => .method

/-- Equality of values: numbers by their numeric value, all others by being the same. -/
def equal : Value → Value → Bool
  | number x, number y => x.equal y
  | v, w => v = w

end Value

end SmallJava
