/-
Reading doubles from text. A numeral is rounded once, from its exact value; besides numerals only
the words `Infinity` and `NaN` are read.
-/
import SmallJava.Decimal.Numeral
import SmallJava.Double.Arithmetic
import SmallJava.Text.Blank

namespace SmallJava.Double

/-! ## From decimals -/

/-- The double nearest to a decimal. A decimal of `10 ^ 309` or more is above every double, and one
below `10 ^ -324` is nearer to zero than to the smallest. -/
def ofDecimal (negative : Bool) (d : Decimal) : Double :=
  if d.digits = 0 then zero negative
  else if 310 ≤ d.place then .infinite negative
  else if d.place ≤ -324 then zero negative
  else
    let num := unitsPerOne * (d.digits * Nat.pow 10 d.exponent.toNat)
    round negative num (Nat.pow 10 (-d.exponent).toNat)

/-- Reads the text of a numeral without a sign. -/
def ofNumeral? (negative : Bool) (cs : List Char) : Option Double :=
  (Numeral.decimal? cs).map (ofDecimal negative)

/-! ## From text -/

/-- Reads a number between white space: an optional sign, and a numeral or one of the two words. -/
def ofText? (text : List Char) : Option Double :=
  let (negative, cs) := Numeral.splitSign (Text.trim text)
  if cs = "Infinity".toList then some (.infinite negative)
  else if cs = "NaN".toList then some .nan
  else ofNumeral? negative cs

/-! ## Whole numbers -/

/-- The greatest whole number up to which every whole number is a double of its own. -/
def maxSafeInteger : Nat := Nat.pow 2 53 - 1

/-- The double of a whole number in the safe range. -/
def ofSafeInteger? (value : Int) : Option Double :=
  if value.natAbs ≤ maxSafeInteger then some (ofInt value) else none

/-- Reads an integer in the safe range between white space. -/
def integerOfText? (text : List Char) : Option Double :=
  (Numeral.integer? (Text.trim text)).bind ofSafeInteger?

end SmallJava.Double
