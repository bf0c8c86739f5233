/-
Decimals: a whole number of digits and a power of ten, and their written forms. The positional form
writes every place between the first digit and the units; the scientific form writes one digit
before the point and the power of ten after an `e`.
-/

namespace SmallJava

/-- The number `digits * 10 ^ exponent`. -/
structure Decimal where
  digits : Nat
  exponent : Int
deriving DecidableEq

/-- How many digits a whole number is written with. -/
def decimalLength (n : Nat) : Nat := (Nat.toDigits 10 n).length

namespace Decimal

/-- The place after which the first digit stands: a decimal other than zero lies between
`10 ^ (place - 1)` and `10 ^ place`. -/
def place (d : Decimal) : Int := decimalLength d.digits + d.exponent

/-! ## Zeros at the end -/

/-- The same number without zeros at the end of its digits. -/
def trimZeros (digits : Nat) (exponent : Int) : Decimal :=
  if digits ≠ 0 ∧ digits % 10 = 0 then trimZeros (digits / 10) (exponent + 1)
  else ⟨digits, exponent⟩
termination_by digits

/-! ## Written forms -/

/-- Digits split by a point that stands before the last `places` of them, with zeros in front where
there are too few. -/
def withPoint (digits : List Char) (places : Nat) : List Char :=
  let padded := List.replicate (places + 1 - digits.length) '0' ++ digits
  padded.take (padded.length - places) ++ '.' :: padded.drop (padded.length - places)

/-- The positional form; a whole number has no point. -/
def positional (d : Decimal) : List Char :=
  let digits := Nat.toDigits 10 d.digits
  if 0 ≤ d.exponent then digits ++ List.replicate d.exponent.toNat '0'
  else withPoint digits (-d.exponent).toNat

/-- The scientific form; a lone digit has no point. -/
def scientific (d : Decimal) : List Char :=
  match Nat.toDigits 10 d.digits with
  | [] => []
  | first :: others =>
    let fraction := if others = [] then [] else '.' :: others
    first :: fraction ++ 'e' :: (toString (d.place - 1)).toList

end Decimal

end SmallJava
