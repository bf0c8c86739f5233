/-
The two written forms of a double. Programs print the positional form. The detailed form always
shows a point or an exponent, and is scientific for numbers from `10 ^ 16` and for numbers below `10
^ -4`.
-/
import SmallJava.Double.Shortest

namespace SmallJava.Double

/-- The number as characters, given the form of its shortest decimal. -/
def chars (form : Decimal → List Char) : Double → List Char
  | .nan => "NaN".toList
  | .infinite s => (if s then ['-'] else []) ++ "inf".toList
  | .finite s n _ => (if s then ['-'] else []) ++ form (shortest n)

/-- The number as programs print it. -/
def text (x : Double) : String := .ofList (chars Decimal.positional x)

/-- The decimal in the detailed form. -/
def detailedForm (d : Decimal) : List Char :=
  if d.digits ≠ 0 ∧ (16 < d.place ∨ d.place < -3) then d.scientific
  else if 0 ≤ d.exponent then d.positional ++ ".0".toList
  else d.positional

/-- The number in the detailed form. -/
def detailed (x : Double) : String := .ofList (chars detailedForm x)

end SmallJava.Double
