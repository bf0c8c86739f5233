/-
Parsers over lists of tokens. A parser takes tokens off the front and gives back what it read with
the tokens left over; a failure also says which tokens it stood before, and takes none of those.
-/
import SmallJava.Token.Basic

namespace SmallJava

/-! ## Failures -/

/-- What a parser was looking for. -/
inductive Expectation
  | token (t : Token)
  | identifier
  | pathSegment
  | className
  | memberName
  | expression
  | statement
  | methodOrClose
  | commaOrClose (closing : Symbol)
deriving DecidableEq

/-- The expectation as messages word it. -/
def Expectation.text : Expectation → String
  | token t => t.shown
  | identifier => "identifier"
  | pathSegment => "identifier or '*'"
  | className => "class name after 'new'"
  | memberName => "member name after '.'"
  | expression => "expression"
  | statement => "statement"
  | methodOrClose => "method declaration or '\x7d'"
  | commaOrClose closing => "',' or " ++ (Token.symbol closing).shown

/-- Why tokens are no program: one that does not fit, too few of them, or a method with two
parameters of one name. -/
inductive ParseError
  | unexpected (expected : Expectation) (found : Token) (line : Nat)
  | endOfInput (expected : Expectation)
  | duplicateParameter (name method : String) (line : Nat)
deriving DecidableEq

/-- The failure as a message. -/
def ParseError.message : ParseError → String
  | unexpected expected found line =>
    s!"Error on line {line}: Expected {expected.text}, found {found.shown}."
  | endOfInput expected => s!"Error: Unexpected end of input, expected {expected.text}."
  | duplicateParameter name method line =>
    s!"Error on line {line}: Duplicate parameter '{name}' in method '{method}'."

/-! ## Replies -/

/-- What a parser answers: a value, or a failure, and the tokens left over. -/
inductive Reply (α : Type)
  | ok (value : α) (rest : List Located)
  | error (cause : ParseError) (rest : List Located)

/-- A parser of values of a type. -/
def Parser (α : Type) : Type := List Located → Reply α

namespace Parser

variable {α β : Type}

/-- Reads nothing. -/
protected def pure (a : α) : Parser α := fun toks => .ok a toks

/-- Reads one thing after another. -/
protected def bind (p : Parser α) (f : α → Parser β) : Parser β := fun toks =>
  match p toks with
  | .ok a rest => f a rest
  | .error e rest => .error e rest

instance : Monad Parser where
  pure := Parser.pure
  bind := Parser.bind

@[simp] theorem pure_apply (a : α) (toks : List Located) : (pure a : Parser α) toks = .ok a toks :=
  rfl

theorem bind_apply (p : Parser α) (f : α → Parser β) (toks : List Located) :
    (p >>= f) toks = match p toks with
      | .ok a rest => f a rest
      | .error e rest => .error e rest := rfl

/-! ## Single tokens -/

/-- The failure to find something where the given tokens stand. -/
def failAt (expected : Expectation) : List Located → Reply α
  | [] => .error (.endOfInput expected) []
  | t :: rest => .error (.unexpected expected t.token t.line) (t :: rest)

/-- Finds nothing. -/
def fail (expected : Expectation) : Parser α := failAt expected

/-- The given parser with the line of the next token, or zero where there is none. -/
def onLine (f : Nat → Parser α) : Parser α
  | [] => f 0 []
  | t :: rest => f t.line (t :: rest)

/-- Takes the given token and gives its line. -/
def expect (token : Token) : Parser Nat
  | [] => failAt (.token token) []
  | t :: rest => if t.token = token then .ok t.line rest else failAt (.token token) (t :: rest)

/-- Takes a symbol. -/
def symbol (s : Symbol) : Parser Nat := expect (.symbol s)

/-- Takes a keyword. -/
def keyword (k : Keyword) : Parser Nat := expect (.keyword k)

/-- Takes a name that has the given part in the grammar. -/
def nameAs (part : Expectation) : Parser String
  | ⟨.name n, _⟩ :: rest => .ok n rest
  | toks => failAt part toks

/-- Takes a name. -/
def identifier : Parser String := nameAs .identifier

/-! ## Lists -/

/-- Reads at least one item, and more after commas, up to the closing symbol; `bound` items at
most. -/
def separated (item : Parser α) (closing : Symbol) : Nat → Parser (List α)
  | 0 => fail (.commaOrClose closing)
  | bound + 1 => do
    let first ← item
    fun
      | ⟨.symbol s, line⟩ :: rest =>
        if s = .comma then (do return first :: (← separated item closing bound) : Parser _) rest
        else if s = closing then .ok [first] rest
        else failAt (.commaOrClose closing) (⟨.symbol s, line⟩ :: rest)
      | toks => failAt (.commaOrClose closing) toks

/-- Reads items with commas between them up to the closing symbol, perhaps none. -/
def list (item : Parser α) (closing : Symbol) : Parser (List α)
  | [] => separated item closing 1 []
  | t :: rest =>
    if t.token = .symbol closing then .ok [] rest
    else separated item closing (rest.length + 1) (t :: rest)

end Parser

end SmallJava
