/-
The written grammar: which lists of tokens are a program, production by production and without any
tree. It is ambiguous, since signs and chains simply alternate in an expression.
-/
import SmallJava.Syntax.Basic
import SmallJava.Token.Basic

namespace SmallJava

/-! ## Signs -/

/-- The signs that stand between the chains of an expression. -/
inductive Sign
  | assignment
  | operator (op : Operator)
deriving DecidableEq

/-- The symbol of an operator. -/
def Operator.symbol : Operator → Symbol
  | sum => .plus
  | difference => .minus
  | product => .star
  | quotient => .slash
  | remainder => .percent

/-- The symbol of a sign. -/
def Sign.symbol : Sign → Symbol
  | assignment => .equals
  | operator op => op.symbol

namespace Grammar

/-! ## Types and parameters -/

/-- `('[' ']')*` -/
inductive Brackets : List Token → Prop
  | none : Brackets []
  | pair {ts : List Token} : Brackets ts → Brackets (.symbol .lbracket :: .symbol .rbracket :: ts)

/-- `type := NAME ('[' ']')*` -/
inductive TypeName : List Token → Prop
  | intro {n : String} {ts : List Token} : Brackets ts → TypeName (.name n :: ts)

/-- `type NAME (',' type NAME)*`, and the names in it. -/
inductive ParameterList : List Token → List String → Prop
  | one {ts : List Token} {n : String} : TypeName ts → ParameterList (ts ++ [.name n]) [n]
  | more {ts us : List Token} {n : String} {ns : List String} : TypeName ts →
      ParameterList us ns → ParameterList (ts ++ .name n :: .symbol .comma :: us) (n :: ns)

/-- `(type NAME (',' type NAME)*)?`, and the names in it. -/
inductive Parameters : List Token → List String → Prop
  | none : Parameters [] []
  | some {ts : List Token} {ns : List String} : ParameterList ts ns → Parameters ts ns

/-- `access?` -/
inductive AccessWord : List Token → Prop
  | none : AccessWord []
  | everyone : AccessWord [.keyword .publicKw]
  | owner : AccessWord [.keyword .privateKw]
  | heirs : AccessWord [.keyword .protectedKw]

/-- `'static'?` -/
inductive StaticWord : List Token → Prop
  | none : StaticWord []
  | static : StaticWord [.keyword .staticKw]

/-! ## Expressions -/

mutual

/-- `expression := chain (op chain)*` -/
inductive Expression : List Token → Prop
  | chain {ts : List Token} : Chain ts → Expression ts
  | operation {ts us : List Token} {sign : Sign} : Expression ts → Chain us →
      Expression (ts ++ .symbol sign.symbol :: us)

/-- `chain := primary ('.' NAME | '(' (expression (',' expression)*)? ')')*` -/
inductive Chain : List Token → Prop
  | primary {ts : List Token} : Primary ts → Chain ts
  | access {ts : List Token} {n : String} : Chain ts → Chain (ts ++ [.symbol .dot, .name n])
  | call {ts us : List Token} : Chain ts → Arguments us →
      Chain (ts ++ .symbol .lparen :: (us ++ [.symbol .rparen]))

/-- `(expression (',' expression)*)?` -/
inductive Arguments : List Token → Prop
  | none : Arguments []
  | some {ts : List Token} : ArgumentList ts → Arguments ts

/-- `expression (',' expression)*` -/
inductive ArgumentList : List Token → Prop
  | one {ts : List Token} : Expression ts → ArgumentList ts
  | more {ts us : List Token} : Expression ts → ArgumentList us →
      ArgumentList (ts ++ .symbol .comma :: us)

/-- `primary := NAME | NUMBER | STRING | 'null' | 'new' NAME | '(' expression ')'` -/
inductive Primary : List Token → Prop
  | name {n : String} : Primary [.name n]
  | number {x : Double} : Primary [.number x]
  | text {s : String} : Primary [.text s]
  | null : Primary [.keyword .nullKw]
  | construction {n : String} : Primary [.keyword .newKw, .name n]
  | grouping {ts : List Token} : Expression ts →
      Primary (.symbol .lparen :: (ts ++ [.symbol .rparen]))

end

/-! ## Statements -/

/-- `(NAME '.')* (NAME | '*')` -/
inductive Path : List Token → Prop
  | name {n : String} : Path [.name n]
  | wildcard : Path [.symbol .star]
  | step {n : String} {ts : List Token} : Path ts → Path (.name n :: .symbol .dot :: ts)

/-- `('=' expression)?` -/
inductive Initializer : List Token → Prop
  | none : Initializer []
  | some {ts : List Token} : Expression ts → Initializer (.symbol .equals :: ts)

mutual

/-- `statement := import | class | declaration | expression ';'` -/
inductive Statement : List Token → Prop
  | importPath {ts : List Token} : Path ts →
      Statement (.keyword .importKw :: (ts ++ [.symbol .semicolon]))
  | declareClass {ws ts : List Token} {n : String} : AccessWord ws → Methods ts →
      Statement (ws ++ .keyword .classKw :: .name n :: .symbol .lbrace :: (ts ++ [.symbol .rbrace]))
  | declareVariable {ts us : List Token} {n : String} : TypeName ts → Initializer us →
      Statement (ts ++ .name n :: (us ++ [.symbol .semicolon]))
  | expression {ts : List Token} : Expression ts → Statement (ts ++ [.symbol .semicolon])

/-- `method*` -/
inductive Methods : List Token → Prop
  | nil : Methods []
  | cons {ts us : List Token} : Method ts → Methods us → Methods (ts ++ us)

/-- `method := access? 'static'? type NAME '(' parameters ')' '{' statement* '}'`, with parameters of
different names. -/
inductive Method : List Token → Prop
  | intro {ws ss ts ps bs : List Token} {n : String} {ns : List String} : AccessWord ws →
      StaticWord ss → TypeName ts → Parameters ps ns → ns.Nodup → Statements bs →
      Method (ws ++ (ss ++ (ts ++ .name n :: .symbol .lparen ::
        (ps ++ .symbol .rparen :: .symbol .lbrace :: (bs ++ [.symbol .rbrace])))))

/-- `root := statement*` -/
inductive Statements : List Token → Prop
  | nil : Statements []
  | cons {ts us : List Token} : Statement ts → Statements us → Statements (ts ++ us)

end

/-! ## Expressions side by side -/

theorem Expression.join {ts us : List Token} {sign : Sign} (h : Expression ts) :
    Expression us → Expression (ts ++ .symbol sign.symbol :: us)
  | .chain hc => .operation h hc
  | .operation hu hc => by
    rw [← List.cons_append, ← List.append_assoc]
    exact .operation (h.join hu) hc

end Grammar

end SmallJava
