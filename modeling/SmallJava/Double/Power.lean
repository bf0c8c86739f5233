/-
Powers. The power function is the machine's, so a double is laid out in 64 bits on the way there and
read from 64 bits on the way back: one bit of sign, eleven of exponent and 52 of digits.
-/
import SmallJava.Double.Basic

namespace SmallJava.Double

/-! ## The layout in 64 bits -/

/-- The 63 bits below the sign. -/
def magnitudeBits : Double → Nat
  | .nan => 0x7FF8000000000000
  | .infinite _ => 0x7FF0000000000000
  | .finite _ n _ =>
    if n < Nat.pow 2 52 then n
    else
      let zeros := n.log2 - 52
      zeros * Nat.pow 2 52 + n / Nat.pow 2 zeros

/-- Whether the sign bit is set. -/
def isNegative : Double → Bool
  | .nan => false
  | .infinite s => s
  | .finite s _ _ => s

/-- The 64 bits of a double. -/
def toBits (x : Double) : UInt64 :=
  .ofNat (magnitudeBits x + if isNegative x then Nat.pow 2 63 else 0)

/-- The double laid out in the given bits. -/
def ofBits (bits : UInt64) : Double :=
  let negative := decide (Nat.pow 2 63 ≤ bits.toNat)
  let exponent := bits.toNat / Nat.pow 2 52 % Nat.pow 2 11
  let digits := bits.toNat % Nat.pow 2 52
  if exponent = Nat.pow 2 11 - 1 then
    if digits = 0 then .infinite negative else .nan
  else if exponent = 0 then .ofUnits negative digits
  else .ofUnits negative ((Nat.pow 2 52 + digits) * Nat.pow 2 (exponent - 1))

/-! ## Powers -/

/-- The first number to the power of the second. -/
def pow (x y : Double) : Double :=
  ofBits (Float.pow (Float.ofBits x.toBits) (Float.ofBits y.toBits)).toBits

end SmallJava.Double
