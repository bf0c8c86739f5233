/-
Programs written back as source text. Operations are printed in parentheses, and an assignment is
where it is part of another expression, so the text is read back as the same program.
-/
import SmallJava.Double.Text
import SmallJava.Syntax.Basic
import SmallJava.Text.Quoted

namespace SmallJava

/-! ## Expressions -/

/-- The constant as it is written. -/
def Literal.source : Literal → String
  | text s => .ofList (Text.Quoted.quote s.toList)
  | number x => x.text
  | null => "null"

namespace Expr

/-- The text of an expression that is part of another one: an assignment needs parentheses. -/
def nested (e : Expr) (text : String) : String :=
  match e with
  | assign .. => "(" ++ text ++ ")"
  | _ => text

mutual

/-- The expression as source text. -/
def source : Expr → String
  | literal v _ => v.source
  | name n _ => n
  | assign target value _ => nested target target.source ++ " = " ++ value.source
  | binary op left right _ =>
    "(" ++ nested left left.source ++ " " ++ op.sign ++ " " ++ nested right right.source ++ ")"
  | access parent member _ => nested parent parent.source ++ "." ++ member
  | call callee arguments _ =>
    nested callee callee.source ++ "(" ++ sourceOfArguments arguments ++ ")"

/-- The arguments of a call, separated by commas. -/
def sourceOfArguments : List Expr → String
  | [] => ""
  | [e] => nested e e.source
  | e :: es => nested e e.source ++ ", " ++ sourceOfArguments es

end

end Expr

/-! ## Declarations -/

/-- The type as it is written. -/
def TypeName.source (t : TypeName) : String :=
  t.name ++ String.join (List.replicate t.dimensions "[]")

/-- The word of access and a space, or nothing. -/
def Access.source : Access → String
  | everyone => "public "
  | owner => "private "
  | heirs => "protected "
  | package => ""

/-- The parameter as it is written. -/
def Parameter.source (p : Parameter) : String := p.type.source ++ " " ++ p.name

/-- The signature up to its closing parenthesis. -/
def Signature.source (s : Signature) : String :=
  s.access.source ++ (if s.isStatic then "static " else "") ++
    s.returnType.source ++ " " ++ s.name ++ "(" ++ String.intercalate ", " (s.params.map (·.source)) ++ ")"

/-- The step of a path as it is written. -/
def Segment.source : Segment → String
  | name n => n
  | wildcard => "*"

/-- The steps of a path with points between them. -/
def sourceOfPath (path : List Segment) : String := String.intercalate "." (path.map (·.source))

/-! ## Statements -/

mutual

/-- The statement as source text; the start of the program has none. -/
def Statement.source : Statement → String
  | .importPath path _ => "import " ++ sourceOfPath path ++ ";"
  | .declareClass name methods _ =>
    "class " ++ name ++ " \x7b\n" ++ sourceOfMethods methods ++ "\x7d"
  | .expression value _ => value.source ++ ";"
  | .declareVariable type name none _ => type.source ++ " " ++ name ++ ";"
  | .declareVariable type name (some value) _ =>
    type.source ++ " " ++ name ++ " = " ++ value.source ++ ";"
  | .entry => ""

/-- The method as source text. -/
def MethodDecl.source : MethodDecl → String
  | .mk signature body => signature.source ++ " \x7b\n" ++ sourceOfBody body ++ "\x7d"

/-- The methods of a class, each with a line break after it. -/
def sourceOfMethods : List MethodDecl → String
  | [] => ""
  | m :: ms => m.source ++ "\n" ++ sourceOfMethods ms

/-- The statements of a body, each with a line break after it. -/
def sourceOfBody : List Statement → String
  | [] => ""
  | s :: ss => s.source ++ "\n" ++ sourceOfBody ss

end

/-- Whether a statement is the start of the program. -/
def Statement.isEntry : Statement → Bool
  | .entry => true
  | _ => false

/-- The program as source text, each statement with a line break after it. -/
def Program.source (p : Program) : String := sourceOfBody (p.statements.filter (!·.isEntry))

end SmallJava
