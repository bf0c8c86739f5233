/-
The shortest decimal of a double: the fewest digits that read back as the same number, and of those
the nearest to it. The search goes from one digit on; dropping no digit of the exact expansion
always reads back, so it ends.
-/
import SmallJava.Double.Read

namespace SmallJava.Double

/-- The exact decimal expansion of a count of units, in units of `10 ^ -1074`. -/
def expansion (units : Nat) : Nat := Nat.pow 5 1074 * units

/-- The place of the highest digit of a whole number, or one above it: `2 ^ 93` is a little below
`10 ^ 28`. -/
def highestPlace (n : Nat) : Nat := (n.log2 + 1) * 28 / 93

/-- The decimal left after dropping some digits of the expansion, if one of the two decimals next to
the number reads back as it. The nearer one is tried first, and of two equally near the greater
one. -/
def dropDigits? (units dropped : Nat) : Option Decimal :=
  let scale := Nat.pow 10 dropped
  let low := expansion units / scale
  let decimal (digits : Nat) : Decimal := ⟨digits, dropped - 1074⟩
  let readsBack (digits : Nat) : Bool := ofDecimal false (decimal digits) = ofUnits false units
  let (nearer, other) :=
    if 2 * (expansion units % scale) < scale then (low, low + 1) else (low + 1, low)
  if readsBack nearer then some (decimal nearer)
  else if readsBack other then some (decimal other)
  else none

/-- The first decimal that reads back, from the given number of dropped digits down. -/
def shortestFrom (units : Nat) : Nat → Decimal
  | 0 => ⟨expansion units, -1074⟩
  | dropped + 1 =>
    match dropDigits? units (dropped + 1) with
    | some d => d
    | none => shortestFrom units dropped

/-- The shortest decimal that reads back as the given count of units. -/
def shortest (units : Nat) : Decimal :=
  if units = 0 then ⟨0, 0⟩
  else
    let d := shortestFrom units (highestPlace (expansion units))
    Decimal.trimZeros d.digits d.exponent

end SmallJava.Double
