/-
Reading statements. A declaration and an expression may both start with a name, so a declaration is
tried first and forgotten if it fails; this is the only place where tokens are read twice.
-/
import SmallJava.Parser.Expression

namespace SmallJava.Parser

/-! ## Types -/

/-- Reads pairs of brackets, at most `bound` of them, and gives their number. -/
def brackets : Nat → Parser Nat
  | bound + 1, ⟨.symbol .lbracket, _⟩ :: rest =>
    (symbol .rbracket >>= fun _ => (· + 1) <$> brackets bound) rest
  | _, toks => .ok 0 toks

/-- Reads a type: a name and pairs of brackets. -/
def typeName : Parser TypeName := do
  let name ← identifier
  let dimensions ← fun toks => brackets toks.length toks
  return ⟨name, dimensions⟩

/-! ## Simple statements -/

/-- Reads the steps of a path, at most `bound` of them; a wildcard is the last one. -/
def segments : Nat → Parser (List Segment)
  | _, ⟨.symbol .star, _⟩ :: rest => .ok [.wildcard] rest
  | bound + 1, ⟨.name n, _⟩ :: ⟨.symbol .dot, _⟩ :: rest =>
    ((.name n :: ·) <$> segments bound) rest
  | _, ⟨.name n, _⟩ :: rest => .ok [.name n] rest
  | _, toks => failAt .pathSegment toks

/-- Reads an import. -/
def importPath : Parser Statement := do
  let line ← keyword .importKw
  let path ← fun toks => segments toks.length toks
  let _ ← symbol .semicolon
  return .importPath path line

/-- Reads the first value of a variable, if one is given. -/
def initializer : Parser (Option Expr)
  | ⟨.symbol .equals, _⟩ :: rest => (some <$> expression) rest
  | toks => .ok none toks

/-- Reads a variable declaration. -/
def declaration : Parser Statement := onLine fun line => do
  let type ← typeName
  let name ← identifier
  let value ← initializer
  let _ ← symbol .semicolon
  return .declareVariable type name value line

/-- Reads an expression that stands as a statement. -/
def expressionStatement : Parser Statement := onLine fun line => do
  let value ← expression
  let _ ← symbol .semicolon
  return .expression value line

/-- Reads a variable declaration, or else an expression that stands as a statement. -/
def simpleStatement : Parser Statement := fun toks =>
  match declaration toks with
  | .ok statement rest => .ok statement rest
  | .error .. => expressionStatement toks

/-! ## Classes

Each of these parsers is given the one for the statements inside method bodies. -/

/-- Reads the statements up to the brace that closes their block, at most `bound` of them. -/
def statementsToClose (inner : Parser Statement) : Nat → Parser (List Statement)
  | _, ⟨.symbol .rbrace, _⟩ :: rest => .ok [] rest
  | bound + 1, t :: rest => (do
    let first ← inner
    return first :: (← statementsToClose inner bound) : Parser _) (t :: rest)
  | _, toks => failAt (.token (.symbol .rbrace)) toks

/-- Reads a block after its opening brace. -/
def blockOver (inner : Parser Statement) : Parser (List Statement) := fun toks =>
  statementsToClose inner toks.length toks

/-- Reads a word of access, if there is one. -/
def access : Parser Access
  | ⟨.keyword .publicKw, _⟩ :: rest => .ok .everyone rest
  | ⟨.keyword .privateKw, _⟩ :: rest => .ok .owner rest
  | ⟨.keyword .protectedKw, _⟩ :: rest => .ok .heirs rest
  | toks => .ok .package toks

/-- Reads the word that makes a method static, if it is there. -/
def staticWord : Parser Bool
  | ⟨.keyword .staticKw, _⟩ :: rest => .ok true rest
  | toks => .ok false toks

/-- Reads a parameter. -/
def parameter : Parser Parameter := do
  let type ← typeName
  let name ← identifier
  return ⟨type, name⟩

/-- The first name that occurs a second time, at its second place. -/
def firstRepeated? (seen : List String) : List String → Option String
  | [] => none
  | n :: ns => if n ∈ seen then some n else firstRepeated? (n :: seen) ns

/-- Reads nothing, and fails if two parameters of the method have one name. -/
def distinctParameters (s : Signature) : Parser Unit := fun toks =>
  match firstRepeated? [] (s.params.map (·.name)) with
  | some name => .error (.duplicateParameter name s.name s.line) toks
  | none => .ok () toks

/-- Reads a method up to its closing parenthesis. -/
def signature : Parser Signature := onLine fun line => do
  let access ← access
  let isStatic ← staticWord
  let returnType ← typeName
  let name ← identifier
  let _ ← symbol .lparen
  let params ← list parameter .rparen
  return ⟨access, isStatic, returnType, name, params, line⟩

/-- Reads a method. -/
def methodOver (inner : Parser Statement) : Parser MethodDecl := do
  let signature ← signature
  distinctParameters signature
  let _ ← symbol .lbrace
  let body ← blockOver inner
  return .mk signature body

/-- Reads the methods up to the brace that closes their class, at most `bound` of them. -/
def methodsToClose (inner : Parser Statement) : Nat → Parser (List MethodDecl)
  | _, ⟨.symbol .rbrace, _⟩ :: rest => .ok [] rest
  | bound + 1, t :: rest => (do
    let first ← methodOver inner
    return first :: (← methodsToClose inner bound) : Parser _) (t :: rest)
  | _, toks => failAt .methodOrClose toks

/-- Reads a class; a word of access before it is left out. -/
def classOver (inner : Parser Statement) : Parser Statement := do
  let _ ← access
  let line ← keyword .classKw
  let name ← identifier
  let _ ← symbol .lbrace
  let methods ← fun toks => methodsToClose inner toks.length toks
  return .declareClass name methods line

/-! ## Whole statements -/

/-- Reads a statement; its first token tells imports and classes from the others. -/
def statementOver (inner : Parser Statement) : Parser Statement
  | [] => failAt .statement []
  | t :: rest =>
    match t.token with
    | .keyword .importKw => importPath (t :: rest)
    | .keyword .classKw | .keyword .publicKw | .keyword .privateKw | .keyword .protectedKw =>
      classOver inner (t :: rest)
    | _ => simpleStatement (t :: rest)

/-- Reads a statement with at most `depth` statements inside one another. -/
def statementUpTo : Nat → Parser Statement
  | 0 => fail .statement
  | depth + 1 => statementOver (statementUpTo depth)

/-- Reads a statement. Every statement inside another one begins after at least one token, so the
number of tokens bounds the depth. -/
def statement : Parser Statement := fun toks => statementUpTo (toks.length + 1) toks

/-- Reads a block after its opening brace. -/
def block : Parser (List Statement) := blockOver statement

/-- Reads a method. -/
def method : Parser MethodDecl := methodOver statement

/-- Reads a class. -/
def classDeclaration : Parser Statement := classOver statement

/-! ## Whole programs -/

/-- Reads statements up to the end, at most `bound` of them, and adds the start of the program. -/
def statementsToEnd : Nat → Parser (List Statement)
  | _, [] => .ok [.entry] []
  | bound + 1, t :: rest => (do
    let first ← statement
    return first :: (← statementsToEnd bound) : Parser _) (t :: rest)
  | 0, toks => failAt .statement toks

/-- Reads a program. -/
def program : Parser Program := fun toks =>
  (do return ⟨← statementsToEnd toks.length⟩ : Parser Program) toks

end SmallJava.Parser
