/-
Numerals: reading integers and decimals from text. An integer is an optional sign and digits; a
decimal has digits before or after its point, or both, and may end in a power of ten.
-/
import SmallJava.Decimal.Basic

namespace SmallJava.Numeral

/-- The value of a run of decimal digits. -/
def value (digits : List Char) : Nat := Nat.ofDigitChars 10 digits 0

/-- Whether the text starts with a minus sign, and what follows the sign if there is one. -/
def splitSign : List Char → Bool × List Char
  | '-' :: cs => (true, cs)
  | '+' :: cs => (false, cs)
  | cs => (false, cs)

/-- Reads an optional sign and one or more digits. -/
def integer? (cs : List Char) : Option Int :=
  let (negative, digits) := splitSign cs
  if digits ≠ [] ∧ digits.all Char.isDigit then
    some (if negative then -(value digits : Int) else value digits)
  else none

/-- Reads the power of ten at the end of a decimal: nothing, or an `e` and an integer. -/
def exponent? : List Char → Option Int
  | [] => some 0
  | c :: cs => if c = 'e' ∨ c = 'E' then integer? cs else none

/-- The digits after a point at the start, and what follows them. -/
def splitFraction : List Char → List Char × List Char
  | '.' :: cs => (cs.takeWhile Char.isDigit, cs.dropWhile Char.isDigit)
  | cs => ([], cs)

/-- Reads a decimal without a sign. -/
def decimal? (cs : List Char) : Option Decimal :=
  let whole := cs.takeWhile Char.isDigit
  let (fraction, rest) := splitFraction (cs.dropWhile Char.isDigit)
  if whole ++ fraction = [] then none
  else (exponent? rest).map fun e => ⟨value (whole ++ fraction), e - fraction.length⟩

end SmallJava.Numeral
