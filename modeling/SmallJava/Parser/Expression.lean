/-
Reading expressions. An endpoint is a primary with member accesses and calls after it, and becomes
the target of an assignment where `=` follows; endpoints are joined by `*`, `/` and `%`, and what
comes of it by `+` and `-`, from the left.
-/
import SmallJava.Parser.Basic
import SmallJava.Syntax.Basic

namespace SmallJava.Parser

/-! ## Endpoints

Each of these parsers is given the one for the expressions inside: in parentheses, between the
commas of a call, and to the right of `=`. -/

/-- Reads an expression up to its closing parenthesis. -/
def grouping (inner : Parser Expr) : Parser Expr := do
  let e ← inner
  let _ ← symbol .rparen
  return e

/-- Reads the class of a construction. -/
def construction : Parser Expr := onLine fun line => do
  let className ← nameAs .className
  return .name className line

/-- Reads a name, a constant, an expression in parentheses or a construction. -/
def primary (inner : Parser Expr) : Parser Expr
  | ⟨.name n, line⟩ :: rest => .ok (.name n line) rest
  | ⟨.number x, line⟩ :: rest => .ok (.literal (.number x) line) rest
  | ⟨.text s, line⟩ :: rest => .ok (.literal (.text s) line) rest
  | ⟨.keyword .nullKw, line⟩ :: rest => .ok (.literal .null line) rest
  | ⟨.symbol .lparen, _⟩ :: rest => grouping inner rest
  | ⟨.keyword .newKw, _⟩ :: rest => construction rest
  | toks => failAt .expression toks

/-- Reads the accesses and calls that follow an expression, at most `bound` of them. -/
def chain (inner : Parser Expr) : Nat → Expr → Parser Expr
  | bound + 1, node, ⟨.symbol .dot, line⟩ :: rest =>
    (nameAs .memberName >>= fun member => chain inner bound (.access node member line)) rest
  | bound + 1, node, ⟨.symbol .lparen, line⟩ :: rest =>
    (list inner .rparen >>= fun arguments => chain inner bound (.call node arguments line)) rest
  | _, node, toks => .ok node toks

/-- Reads a primary and what follows it. -/
def postfixed (inner : Parser Expr) : Parser Expr := do
  let node ← primary inner
  fun toks => chain inner toks.length node toks

/-- Reads the value of an assignment to the given target, if one follows. -/
def assigned (inner : Parser Expr) (target : Expr) : Parser Expr
  | ⟨.symbol .equals, line⟩ :: rest =>
    (inner >>= fun value => pure (.assign target value line) : Parser Expr) rest
  | toks => .ok target toks

/-- Reads an endpoint. -/
def endpoint (inner : Parser Expr) : Parser Expr := do
  let target ← postfixed inner
  assigned inner target

/-! ## Operations -/

/-- The operators that bind tighter. -/
def factorOperator? : Token → Option Operator
  | .symbol .star => some .product
  | .symbol .slash => some .quotient
  | .symbol .percent => some .remainder
  | _ => none

/-- The operators that bind looser. -/
def termOperator? : Token → Option Operator
  | .symbol .plus => some .sum
  | .symbol .minus => some .difference
  | _ => none

/-- Reads the operators and operands that follow a first operand, at most `bound` of them. -/
def operations (operator? : Token → Option Operator) (operand : Parser Expr) :
    Nat → Expr → Parser Expr
  | bound + 1, left, t :: rest =>
    match operator? t.token with
    | some op =>
      (operand >>= fun right =>
        operations operator? operand bound (.binary op left right t.line)) rest
    | none => .ok left (t :: rest)
  | _, left, toks => .ok left toks

/-- Reads operands with operators between them. -/
def joined (operator? : Token → Option Operator) (operand : Parser Expr) : Parser Expr := do
  let first ← operand
  fun toks => operations operator? operand toks.length first toks

/-- Reads endpoints joined by the tighter operators. -/
def multiplicativeOver (inner : Parser Expr) : Parser Expr :=
  joined factorOperator? (endpoint inner)

/-- Reads products joined by the looser operators. -/
def additiveOver (inner : Parser Expr) : Parser Expr :=
  joined termOperator? (multiplicativeOver inner)

/-! ## Whole expressions -/

/-- Reads an expression with at most `depth` expressions inside one another. -/
def expressionUpTo : Nat → Parser Expr
  | 0 => fail .expression
  | depth + 1 => additiveOver (expressionUpTo depth)

/-- Reads an expression. Every expression inside another one begins after at least one token, so the
number of tokens bounds the depth. -/
def expression : Parser Expr := fun toks => expressionUpTo (toks.length + 1) toks

/-- Reads the sums and differences of an expression, which is all of it. -/
def additive : Parser Expr := additiveOver expression

/-- Reads the products, quotients and remainders at the start of an expression. -/
def multiplicative : Parser Expr := multiplicativeOver expression

end SmallJava.Parser
