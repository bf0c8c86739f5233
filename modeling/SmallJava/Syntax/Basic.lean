/-
The syntax of programs: expressions, statements, methods and classes, each with the line it was
written on. A program is a list of statements that ends with the one that starts it.
-/
import SmallJava.Double.Basic

namespace SmallJava

/-! ## Expressions -/

/-- Constants written in a program. -/
inductive Literal
  | text (value : String)
  | number (value : Double)
  | null
deriving DecidableEq

/-- Arithmetic operators; the sum also joins texts. -/
inductive Operator
  | sum | difference | product | quotient | remainder
deriving DecidableEq, Repr

/-- The operator as it is written. -/
def Operator.sign : Operator → String
  | sum => "+"
  | difference => "-"
  | product => "*"
  | quotient => "/"
  | remainder => "%"

/-- Expressions. Parentheses and the word before a construction leave no node: a construction is the
call of a class. -/
inductive Expr
  | literal (value : Literal) (line : Nat)
  | name (name : String) (line : Nat)
  | assign (target value : Expr) (line : Nat)
  | binary (op : Operator) (left right : Expr) (line : Nat)
  | access (parent : Expr) (member : String) (line : Nat)
  | call (callee : Expr) (arguments : List Expr) (line : Nat)

/-! ## Declarations -/

/-- A declared type: a name and how many pairs of brackets follow it. -/
structure TypeName where
  name : String
  dimensions : Nat
deriving DecidableEq, Repr

/-- Who may use a method; without a word of access, its package. -/
inductive Access
  | everyone | owner | heirs | package
deriving DecidableEq, Repr

/-- A parameter of a method. -/
structure Parameter where
  type : TypeName
  name : String
deriving DecidableEq, Repr

/-- All of a method but its body. -/
structure Signature where
  access : Access
  isStatic : Bool
  returnType : TypeName
  name : String
  params : List Parameter
  line : Nat
deriving DecidableEq, Repr

/-- A step of an import path; a wildcard stands for all members of the package reached. -/
inductive Segment
  | name (name : String)
  | wildcard
deriving DecidableEq, Repr

/-! ## Statements -/

mutual

/-- Statements. The last one of a program looks for its entry point and runs it. -/
inductive Statement
  | importPath (path : List Segment) (line : Nat)
  | declareClass (name : String) (methods : List MethodDecl) (line : Nat)
  | expression (value : Expr) (line : Nat)
  | declareVariable (type : TypeName) (name : String) (value : Option Expr) (line : Nat)
  | entry

/-- A method with its body. -/
inductive MethodDecl
  | mk (signature : Signature) (body : List Statement)

end

/-- All of a method but its body. -/
def MethodDecl.signature : MethodDecl → Signature
  | mk signature _ => signature

/-- The statements that run when a method is called. -/
def MethodDecl.body : MethodDecl → List Statement
  | mk _ body => body

instance : Inhabited Expr := ⟨.literal .null 0⟩

instance : Inhabited Statement := ⟨.entry⟩

/-- A whole program. -/
structure Program where
  statements : List Statement

end SmallJava
