/-
Tokens, the words of a program: numbers, texts, keywords, names and symbols, each with the line it
stands on.
-/
import SmallJava.Double.Text
import SmallJava.Text.Visible

namespace SmallJava

/-! ## Keywords -/

/-- The words that no name can be. -/
inductive Keyword
  | importKw | classKw | staticKw | publicKw | privateKw | protectedKw | newKw | nullKw
deriving DecidableEq, Repr

namespace Keyword

/-- All keywords. -/
def all : List Keyword :=
  [importKw, classKw, staticKw, publicKw, privateKw, protectedKw, newKw, nullKw]

/-- The keyword as it is written. -/
def spelling : Keyword → String
  | importKw => "import"
  | classKw => "class"
  | staticKw => "static"
  | publicKw => "public"
  | privateKw => "private"
  | protectedKw => "protected"
  | newKw => "new"
  | nullKw => "null"

/-- The keyword with the given spelling. -/
def ofSpelling? (word : String) : Option Keyword := all.find? (·.spelling = word)

theorem ofSpelling?_spelling (k : Keyword) : ofSpelling? k.spelling = some k := by
  cases k <;> decide

end Keyword

/-! ## Symbols -/

/-- Punctuation and operators, each a single character. -/
inductive Symbol
  | dot | comma | semicolon
  | lparen | rparen | lbrace | rbrace | lbracket | rbracket
  | equals | plus | minus | star | slash | percent
deriving DecidableEq, Repr

namespace Symbol

/-- The character of a symbol. -/
def char : Symbol → Char
  | dot => '.'
  | comma => ','
  | semicolon => ';'
  | lparen => '('
  | rparen => ')'
  | lbrace => '{'
  | rbrace => '}'
  | lbracket => '['
  | rbracket => ']'
  | equals => '='
  | plus => '+'
  | minus => '-'
  | star => '*'
  | slash => '/'
  | percent => '%'

/-- The symbol a character is. -/
def ofChar? : Char → Option Symbol
  | '.' => some dot
  | ',' => some comma
  | ';' => some semicolon
  | '(' => some lparen
  | ')' => some rparen
  | '{' => some lbrace
  | '}' => some rbrace
  | '[' => some lbracket
  | ']' => some rbracket
  | '=' => some equals
  | '+' => some plus
  | '-' => some minus
  | '*' => some star
  | '/' => some slash
  | '%' => some percent
  | _ => none

theorem ofChar?_char (s : Symbol) : ofChar? s.char = some s := by cases s <;> rfl

theorem char_of_ofChar? {c : Char} {s : Symbol} (h : ofChar? c = some s) : s.char = c := by
  unfold ofChar? at h
  split at h <;> simp at h <;> subst h <;> rfl

end Symbol

/-! ## Tokens -/

/-- A token: a number, a text with its escapes decoded, a keyword, a name or a symbol. -/
inductive Token
  | number (value : Double)
  | text (value : String)
  | keyword (word : Keyword)
  | name (name : String)
  | symbol (sign : Symbol)
deriving DecidableEq

/-- The token as messages show it: a number by its digits, a text in quotes, all others as they are
written, between apostrophes. -/
def Token.shown : Token → String
  | number x => x.text
  | text s => Text.visible s
  | keyword k => "'" ++ k.spelling ++ "'"
  | name n => "'" ++ n ++ "'"
  | symbol s => "'" ++ s.char.toString ++ "'"

/-- A token and its line; lines count from one. -/
structure Located where
  token : Token
  line : Nat
deriving DecidableEq

end SmallJava
