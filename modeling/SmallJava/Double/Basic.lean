/-
Double-precision numbers, the only numbers of the language. A finite double is a sign and a whole
number of units of `2^-1074`, the smallest positive double, so all arithmetic on doubles is exact
arithmetic on whole numbers followed by one rounding step. Zero keeps its sign and there is one
value that is not a number.
-/

namespace SmallJava

/-! ## Magnitudes -/

/-- One, counted in units of `2^-1074`. -/
def unitsPerOne : Nat := Nat.pow 2 1074

/-- The first power of two that is too large for a double, in units: 53 binary digits are shifted
by at most 2045 places. -/
def unitsBound : Nat := Nat.pow 2 53 * Nat.pow 2 2045

/-- A count of units is the magnitude of a double if its binary digits end within 53 places of the
first one and it stays below the bound. -/
def Representable (units : Nat) : Prop :=
  units < unitsBound ∧ Nat.pow 2 (units.log2 - 52) ∣ units

instance (units : Nat) : Decidable (Representable units) :=
  inferInstanceAs (Decidable (_ ∧ _))

theorem two_pow_pos (places : Nat) : 0 < Nat.pow 2 places := Nat.two_pow_pos places

theorem two_pow_le_unitsBound : Nat.pow 2 53 ≤ unitsBound := by decide +kernel

theorem representable_of_lt {units : Nat} (h : units < Nat.pow 2 53) : Representable units := by
  have hlog : units.log2 - 52 = 0 := by
    by_cases h0 : units = 0
    · subst h0; rfl
    · have := (Nat.log2_lt h0).2 h
      omega
  refine ⟨Nat.lt_of_lt_of_le h two_pow_le_unitsBound, ?_⟩
  rw [hlog]
  exact Nat.one_dvd _

theorem representable_zero : Representable 0 := representable_of_lt (by decide)

/-! ## Doubles -/

/-- A double: not a number, an infinity, or a sign and a representable count of units. -/
inductive Double
  | nan
  | infinite (negative : Bool)
  | finite (negative : Bool) (units : Nat) (representable : Representable units)
deriving DecidableEq

namespace Double

/-- Zero with the given sign. -/
def zero (negative : Bool) : Double := .finite negative 0 representable_zero

instance : Inhabited Double := ⟨zero false⟩

/-- The double of a sign and a count of units, infinite where the count is out of range. -/
def ofUnits (negative : Bool) (units : Nat) : Double :=
  if h : Representable units then .finite negative units h else .infinite negative

theorem ofUnits_of_representable {negative : Bool} {units : Nat} (h : Representable units) :
    ofUnits negative units = .finite negative units h := dif_pos h

/-- Whether the value is a number and not an infinity. -/
def isFinite : Double → Bool
  | .finite .. => true
  | _ => false

/-- The count of units with its sign. -/
def signed (negative : Bool) (units : Nat) : Int :=
  if negative then -(units : Int) else units

/-! ## Order -/

/-- Equality of numbers: the two zeros are equal, and what is not a number equals nothing. -/
def equal : Double → Double → Bool
  | .infinite s, .infinite t => s == t
  | .finite s m _, .finite t n _ => signed s m == signed t n
  | _, _ => false

/-- Whether the first number is below the second; false where either is not a number. -/
def below : Double → Double → Bool
  | .infinite s, .infinite t => s && !t
  | .infinite s, .finite .. => s
  | .finite .., .infinite t => !t
  | .finite s m _, .finite t n _ => signed s m < signed t n
  | _, _ => false

end Double

end SmallJava
