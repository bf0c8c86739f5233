/-
Pieces, the parts a source text falls into: the longest piece that starts a text is a number, a
quoted text, a word, a symbol, a run of blanks, a line break or a comment. A piece is given by its
kind and by how many characters it has after its first one.
-/
import SmallJava.Token.Basic

namespace SmallJava

/-- The kinds of pieces. -/
inductive Piece
  | number | quoted | word | symbol | blanks | lineBreak | lineComment | blockComment
deriving DecidableEq, Repr

namespace Piece

/-! ## Character classes -/

/-- The characters a name can start with: ASCII letters, the underscore and the dollar sign. -/
def isNameStart (c : Char) : Bool := c.isAlpha || c = '_' || c = '$'

/-- The characters a name can go on with. -/
def isNameRest (c : Char) : Bool := isNameStart c || c.isDigit

/-- The characters between pieces of one line. -/
def isBlank (c : Char) : Bool := c = ' ' || c = '\t' || c = '\x0c'

/-! ## Extents -/

/-- The digits at the start of a text. -/
def digitsExtent (cs : List Char) : Nat := (cs.takeWhile Char.isDigit).length

/-- A point and the digits after it, if there are any. -/
def fractionExtent : List Char → Nat
  | '.' :: cs => if digitsExtent cs = 0 then 0 else 1 + digitsExtent cs
  | _ => 0

/-- A sign at the start of a text. -/
def signExtent : List Char → Nat
  | '+' :: _ => 1
  | '-' :: _ => 1
  | _ => 0

/-- The letter `e`, a sign if there is one, and the digits after them, if there are any. -/
def exponentExtent : List Char → Nat
  | c :: cs =>
    if c = 'e' ∨ c = 'E' then
      let sign := signExtent cs
      let digits := digitsExtent (cs.drop sign)
      if digits = 0 then 0 else 1 + sign + digits
    else 0
  | [] => 0

/-- A number after its first digit. -/
def numberExtent (cs : List Char) : Nat :=
  let whole := digitsExtent cs
  let fraction := fractionExtent (cs.drop whole)
  whole + fraction + exponentExtent (cs.drop (whole + fraction))

/-- A quoted text after its opening quote, up to the first quote that no backslash precedes. It does
not reach over the end of its line. -/
def quotedExtent? : List Char → Option Nat
  | [] => none
  | c :: cs =>
    if c = '"' then some 1
    else if c = '\n' then none
    else if c = '\\' then
      match cs with
      | [] => none
      | e :: rest => if e = '\n' then none else (quotedExtent? rest).map (· + 2)
    else (quotedExtent? cs).map (· + 1)

/-- A block comment after its opening, up to the first star and slash. -/
def closeExtent? : List Char → Option Nat
  | '*' :: '/' :: _ => some 2
  | _ :: cs => (closeExtent? cs).map (· + 1)
  | [] => none

/-- The rest of a line. -/
def lineExtent (cs : List Char) : Nat :=
  (cs.takeWhile fun c => c != '\n' && c != '\r').length

/-! ## The longest piece -/

/-- The longest piece that starts with the given character in front of the given text. -/
def first? (c : Char) (cs : List Char) : Option (Piece × Nat) :=
  if c.isDigit then some (number, numberExtent cs)
  else if isNameStart c then some (word, (cs.takeWhile isNameRest).length)
  else if isBlank c then some (blanks, (cs.takeWhile isBlank).length)
  else if c = '"' then (quotedExtent? cs).map (quoted, ·)
  else
    match c, cs with
    | '\n', _ => some (lineBreak, 0)
    | '\r', '\n' :: _ => some (lineBreak, 1)
    | '/', '/' :: rest => some (lineComment, 1 + lineExtent rest)
    | '/', '*' :: rest =>
      match closeExtent? rest with
      | some n => some (blockComment, 1 + n)
      | none => some (symbol, 0)
    | _, _ => (Symbol.ofChar? c).map fun _ => (symbol, 0)

/-- What a text starts with when no piece does: an open quote takes the rest of its line, any other
character stands alone. -/
def strayExtent (c : Char) (cs : List Char) : Nat :=
  if c = '"' then (cs.takeWhile (· != '\n')).length else 0

end Piece

end SmallJava
