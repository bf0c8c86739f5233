/-
Arithmetic on doubles: each operation is computed exactly on units and rounded once, to the nearest
double. Division by zero, infinities and what is not a number follow the usual conventions, and a
remainder keeps the sign of the dividend.
-/
import SmallJava.Double.Round

namespace SmallJava.Double

/-! ## Sums -/

/-- The sum; an exact zero is negative only if both summands are. -/
def add : Double → Double → Double
  | .infinite s, .infinite t => if s = t then .infinite s else .nan
  | .infinite s, .finite .. => .infinite s
  | .finite .., .infinite t => .infinite t
  | .finite s m _, .finite t n _ =>
    let total := signed s m + signed t n
    if total = 0 then zero (s && t) else round (total < 0) total.natAbs 1
  | _, _ => .nan

/-- The number with the opposite sign. -/
def neg : Double → Double
  | .nan => .nan
  | .infinite s => .infinite !s
  | .finite s n h => .finite (!s) n h

/-- The difference. -/
def sub (x y : Double) : Double := add x (neg y)

/-! ## Products and quotients -/

/-- The product. -/
def mul : Double → Double → Double
  | .infinite s, .infinite t => .infinite (s != t)
  | .infinite s, .finite t n _ => if n = 0 then .nan else .infinite (s != t)
  | .finite s m _, .infinite t => if m = 0 then .nan else .infinite (s != t)
  | .finite s m _, .finite t n _ => round (s != t) (m * n) unitsPerOne
  | _, _ => .nan

/-- The quotient; a number other than zero divided by zero is infinite. -/
def div : Double → Double → Double
  | .infinite s, .finite t _ _ => .infinite (s != t)
  | .finite s _ _, .infinite t => zero (s != t)
  | .finite s m _, .finite t n _ =>
    if n ≠ 0 then round (s != t) (m * unitsPerOne) n
    else if m = 0 then .nan
    else .infinite (s != t)
  | _, _ => .nan

/-- What is left of the first number after taking away the second a whole number of times, rounded
toward zero. -/
def rem : Double → Double → Double
  | .finite s m h, .infinite _ => .finite s m h
  | .finite s m _, .finite _ n _ => if n = 0 then .nan else ofUnits s (m % n)
  | _, _ => .nan

/-! ## Functions of one number -/

/-- The number without its sign. -/
def abs : Double → Double
  | .nan => .nan
  | .infinite _ => .infinite false
  | .finite _ n h => .finite false n h

/-- The square root. Twice the whole root, and one more where the root is not exact, lies on the
same side of every rounding boundary as twice the root. -/
def sqrt : Double → Double
  | .nan => .nan
  | .infinite s => if s then .nan else .infinite false
  | .finite s n h =>
    if n = 0 then .finite s n h
    else if s then .nan
    else
      let square := n * unitsPerOne
      let root := square.sqrt
      round false (2 * root + if root * root = square then 0 else 1) 2

/-- The greatest whole number that is not above the number, with the sign of the number. -/
def floor : Double → Double
  | .finite s n _ =>
    let whole := n / unitsPerOne
    let up := s && n % unitsPerOne != 0
    ofUnits s ((if up then whole + 1 else whole) * unitsPerOne)
  | x => x

/-- The least whole number that is not below the number, with the sign of the number. -/
def ceil (x : Double) : Double := neg (floor (neg x))

/-- The double whose value is the given whole number, if it is small enough to be exact; the nearest
one otherwise. -/
def ofInt (value : Int) : Double := round (value < 0) (value.natAbs * unitsPerOne) 1

/-- One half. -/
def half : Double := round false unitsPerOne 2

/-- The nearest whole number; a half goes up. -/
def roundHalfUp (x : Double) : Double := floor (add x half)

/-! ## Functions of two numbers -/

/-- The greater number, the second of two equal ones, and the other where one is not a number. -/
def max (x y : Double) : Double :=
  if y = .nan ∨ below y x then x else y

/-- The lesser number, the second of two equal ones, and the other where one is not a number. -/
def min (x y : Double) : Double :=
  if y = .nan ∨ below x y then x else y

end SmallJava.Double
