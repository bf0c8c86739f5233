/-
Whole numbers. Up to the greatest safe integer every whole number is the value of a double, so that
integers read from text are exact and no two of them are equal. They are read through machine
integers, whose range is wider. Main statement: `Action.integer_exact`.
-/
import SmallJava.Host.Perform
import SmallJava.Proofs.Decimal.Numeral
import SmallJava.Proofs.Double.ReadBack
import SmallJava.Proofs.Text.Trim
import Mathlib.Data.Int.Cast.Lemmas
import Mathlib.Data.Rat.Cast.Defs
import Mathlib.Algebra.Field.Rat

namespace SmallJava

/-! ## Values -/

theorem unitsPerOne_pos : 0 < unitsPerOne := by decide +kernel

theorem unitsPerOne_bound : Nat.pow 2 53 * unitsPerOne ≤ unitsBound := by decide +kernel

namespace Double

variable {x y : Double} {v : Int}

/-- The value of a finite double. -/
def value? : Double → Option ℚ
  | .finite s n _ => some (signed s n / unitsPerOne)
  | _ => none

theorem unitsPerOne_ne_zero : (unitsPerOne : ℚ) ≠ 0 :=
  Nat.cast_ne_zero.2 (Nat.ne_of_gt unitsPerOne_pos)

/-- Numbers are equal if their values are. -/
theorem equal_iff {a b : ℚ} (hx : x.value? = some a) (hy : y.value? = some b) :
    x.equal y = true ↔ a = b := by
  cases x with
  | finite s m hm =>
    cases y with
    | finite t n hn =>
      obtain rfl : _ = a := Option.some.inj hx
      obtain rfl : _ = b := Option.some.inj hy
      rw [div_left_inj' unitsPerOne_ne_zero, Int.cast_inj]
      exact beq_iff_eq
    | _ => cases hy
  | _ => cases hx

/-! ## Whole numbers as doubles -/

theorem representable_natAbs (h : v.natAbs ≤ maxSafeInteger) :
    Representable (v.natAbs * unitsPerOne) := by
  have hlt : v.natAbs < Nat.pow 2 53 := Nat.lt_of_le_of_lt h (Nat.sub_lt (two_pow_pos 53) Nat.one_pos)
  have hbound : v.natAbs * unitsPerOne < unitsBound :=
    Nat.lt_of_lt_of_le (Nat.mul_lt_mul_of_pos_right hlt unitsPerOne_pos) unitsPerOne_bound
  -- the power stays a power
  unfold unitsPerOne at *
  generalize 1074 = places at *
  exact representable_mul_pow (Nat.le_of_lt hlt) hbound

theorem signed_natAbs (v : Int) (n : Nat) : signed (v < 0) (v.natAbs * n) = v * n := by
  unfold signed
  split
  · rename_i hv
    have hneg : (v.natAbs : Int) = -v := Int.ofNat_natAbs_of_nonpos (le_of_lt (of_decide_eq_true hv))
    rw [Nat.cast_mul, hneg, Int.neg_mul, Int.neg_neg]
  · rename_i hv
    rw [Nat.cast_mul, Int.natAbs_of_nonneg (by simpa using hv)]

/-- The double of a safe integer has the value of the integer. -/
theorem value?_ofInt (h : v.natAbs ≤ maxSafeInteger) : (ofInt v).value? = some (v : ℚ) := by
  rw [ofInt, round_self (representable_natAbs h), value?, signed_natAbs]
  push_cast
  rw [mul_div_cancel_right₀ _ unitsPerOne_ne_zero]

end Double

/-! ## Integers in a text -/

namespace Numeral

variable {text cs : List Char} {v : Int}

/-- The text is an integer between white space. -/
def WrittenIn (text : List Char) (v : Int) : Prop := ∃ core, Text.Trims text core ∧ Signed core v

theorem writtenIn_iff : WrittenIn text v ↔ integer? (Text.trim text) = some v := by
  rw [integer?_eq_some_iff]
  constructor
  · rintro ⟨core, hcore, hv⟩
    rwa [hcore.trim_eq]
  · exact fun h => ⟨_, Text.trims_trim text, h⟩

/-- A text writes one integer at most. -/
theorem WrittenIn.unique {u : Int} (h : WrittenIn text v) (h' : WrittenIn text u) : v = u :=
  Option.some.inj ((writtenIn_iff.1 h).symm.trans (writtenIn_iff.1 h'))

theorem digits_toDigits (n : Nat) : Digits (Nat.toDigits 10 n) n :=
  digits_iff.2 ⟨Nat.toDigits_ne_nil, fun _ => Decimal.isDigit_of_mem_toDigits,
    Nat.ofDigitChars_ten_toDigits⟩

/-- The decimal text of an integer writes it. -/
theorem signed_toString (v : Int) : Signed (toString v).toList v := by
  cases v with
  | ofNat n =>
    have htext : (toString (Int.ofNat n)).toList = Nat.toDigits 10 n := String.toList_ofList
    rw [htext]
    exact .unsigned (digits_toDigits n)
  | negSucc n =>
    have htext : (toString (Int.negSucc n)).toList = '-' :: Nat.toDigits 10 (n + 1) := by
      show ("-" ++ Nat.repr (n + 1)).toList = _
      simp only [String.toList_append, Nat.repr, String.toList_ofList]
      rfl
    rw [htext]
    exact .minus (digits_toDigits (n + 1))

theorem Signed.not_blank (h : Signed cs v) : ∀ c ∈ cs, Text.isBlank c = false := by
  have hdigits {ds : List Char} {n : Nat} (h : Digits ds n) : ∀ c ∈ ds, Text.isBlank c = false :=
    fun c hc => Text.isBlank_of_isDigit ((digits_iff.1 h).2.1 c hc)
  cases h with
  | unsigned h => exact hdigits h
  | plus h => exact List.forall_mem_cons.2 ⟨rfl, hdigits h⟩
  | minus h => exact List.forall_mem_cons.2 ⟨rfl, hdigits h⟩

theorem writtenIn_toString (v : Int) : WrittenIn (toString v).toList v :=
  writtenIn_iff.2 (by
    rw [Text.trim_eq_self (signed_toString v).not_blank]
    exact integer?_eq_some_iff.2 (signed_toString v))

/-- The integers that 64 bits hold. -/
def InWord (v : Int) : Prop := Int64.minValue.toInt ≤ v ∧ v ≤ Int64.maxValue.toInt

instance (v : Int) : Decidable (InWord v) := inferInstanceAs (Decidable (_ ∧ _))

theorem InWord.toInt_ofInt (h : InWord v) : (Int64.ofInt v).toInt = v := by
  have hgreatest : Int64.maxValue.toInt = 2 ^ 63 - 1 := by decide
  exact Int64.toInt_ofInt_of_le h.1 (by have := h.2; omega)

/-- Reads a machine integer. -/
def int64? (cs : List Char) : Option Int64 :=
  (integer? cs).bind fun v => if InWord v then some (.ofInt v) else none

end Numeral

namespace Double

variable {text : List Char} {x : Double}

/-- The double of a machine integer in the safe range. Its magnitude is taken without a sign, since
the least machine integer has no opposite. -/
def ofInt64? (v : Int64) : Option Double :=
  if v.abs.toUInt64.toNat ≤ maxSafeInteger then some (ofInt v.toInt) else none

theorem toNat_toUInt64_abs (v : Int64) : v.abs.toUInt64.toNat = v.toInt.natAbs := by
  have habs : v.abs.toUInt64.toNat = v.toBitVec.abs.toNat := rfl
  have hint : v.toInt = v.toBitVec.toInt := rfl
  rw [habs, hint, BitVec.toNat_abs, BitVec.msb_eq_decide, BitVec.toInt_eq_toNat_cond]
  -- words from `2 ^ 63` on stand for negative integers, the least of them for `-2 ^ 63`
  have hlt := v.toBitVec.isLt
  generalize v.toBitVec.toNat = n at hlt
  by_cases hn : 2 ^ 63 ≤ n
  · rw [if_pos (by simpa using hn), if_neg (by omega)]
    omega
  · rw [if_neg (by simpa using hn), if_pos (by omega)]
    omega

/-- Whole numbers are checked alike as machine integers. -/
theorem ofInt64?_eq (v : Int64) : ofInt64? v = ofSafeInteger? v.toInt := by
  rw [ofInt64?, ofSafeInteger?, toNat_toUInt64_abs]

/-- What 64 bits do not hold is not safe either. -/
theorem inWord_of_safe {v : Int} (h : v.natAbs ≤ maxSafeInteger) : Numeral.InWord v := by
  have hsafe : maxSafeInteger = 2 ^ 53 - 1 := rfl
  have hleast : Int64.minValue.toInt = -2 ^ 63 := by decide
  have hgreatest : Int64.maxValue.toInt = 2 ^ 63 - 1 := by decide
  exact ⟨by omega, by omega⟩

/-- The integers of a text may as well be read as machine integers. -/
theorem integerOfText?_eq (text : List Char) :
    integerOfText? text = (Numeral.int64? (Text.trim text)).bind ofInt64? := by
  unfold integerOfText? Numeral.int64?
  cases Numeral.integer? (Text.trim text) with
  | none => rfl
  | some v =>
    simp only [Option.bind_some]
    by_cases hword : Numeral.InWord v
    · rw [if_pos hword, Option.bind_some, ofInt64?_eq, hword.toInt_ofInt]
    · have hlarge : ofSafeInteger? v = none := if_neg fun h => hword (inWord_of_safe h)
      rw [if_neg hword, hlarge, Option.bind_none]

theorem integerOfText?_eq_some_iff : integerOfText? text = some x ↔
    ∃ v, Numeral.WrittenIn text v ∧ v.natAbs ≤ maxSafeInteger ∧ x = ofInt v := by
  simp only [integerOfText?, Option.bind_eq_some_iff, Numeral.writtenIn_iff, ofSafeInteger?]
  refine exists_congr fun v => and_congr_right fun _ => ?_
  split
  · rename_i hv
    simp [hv, eq_comm]
  · rename_i hv
    simp [hv]

end Double

/-! ## Reading integers -/

namespace Action

open Numeral (WrittenIn)

variable {text other : List Char} {line : Nat} {w : World} {v u : Int} {x y : Double}

theorem integer_apply (text : List Char) (line : Nat) (w : World) :
    integer text line w = match Double.integerOfText? text with
      | some x => (.done (.number x), w)
      | none => (.fault (.invalidArgument (.notInteger (.ofList text)) line), w) := by
  unfold integer
  cases Double.integerOfText? text <;> rfl

theorem integer_of_writtenIn (h : WrittenIn text v) (hv : v.natAbs ≤ 2 ^ 53 - 1) (line : Nat)
    (w : World) : integer text line w = (.done (.number (.ofInt v)), w) := by
  rw [integer_apply, Double.integerOfText?_eq_some_iff.2 ⟨v, h, hv, rfl⟩]

/-- A text that is read writes a safe integer, and the number read is its double. -/
theorem writtenIn_of_integer (h : integer text line w = (.done (.number x), w)) :
    ∃ v, WrittenIn text v ∧ v.natAbs ≤ 2 ^ 53 - 1 ∧ x = .ofInt v := by
  rw [integer_apply] at h
  cases hread : Double.integerOfText? text with
  | none =>
    rw [hread] at h
    cases h
  | some x =>
    rw [hread] at h
    cases h
    exact Double.integerOfText?_eq_some_iff.1 hread

theorem integer_of_large (h : ∀ v, WrittenIn text v → 2 ^ 53 - 1 < v.natAbs) (line : Nat)
    (w : World) : integer text line w =
      (.fault (.invalidArgument (.notInteger (.ofList text)) line), w) := by
  rw [integer_apply]
  cases hread : Double.integerOfText? text with
  | none => rfl
  | some x =>
    obtain ⟨v, hv, hsafe, -⟩ := Double.integerOfText?_eq_some_iff.1 hread
    exact absurd hsafe (Nat.not_le.2 (h v hv))

/-- No two integers are read as equal numbers. -/
theorem equal_eq_false_of_ne {otherLine : Nat} {otherWorld : World} (h : WrittenIn text v)
    (hother : WrittenIn other u) (hne : v ≠ u)
    (hx : integer text line w = (.done (.number x), w))
    (hy : integer other otherLine otherWorld = (.done (.number y), otherWorld)) :
    x.equal y = false := by
  obtain ⟨v', hv', hsafe, hxv⟩ := writtenIn_of_integer hx
  obtain ⟨u', hu', hsafe', hyu⟩ := writtenIn_of_integer hy
  rw [← h.unique hv'] at hsafe hxv
  rw [← hother.unique hu'] at hsafe' hyu
  have hvalue : x.value? = some (v : ℚ) := by rw [hxv, Double.value?_ofInt hsafe]
  have hvalue' : y.value? = some (u : ℚ) := by rw [hyu, Double.value?_ofInt hsafe']
  rw [Bool.eq_false_iff, ne_eq, Double.equal_iff hvalue hvalue', Int.cast_inj]
  exact hne

theorem integer_toString (v : Int64) (line : Nat) (w : World) :
    integer (toString v).toList line w =
      if v.toInt.natAbs ≤ 2 ^ 53 - 1 then (.done (.number (.ofInt v.toInt)), w)
      else (.fault (.invalidArgument (.notInteger (toString v)) line), w) := by
  have hwritten : WrittenIn (toString v).toList v.toInt := Numeral.writtenIn_toString v.toInt
  split
  · rename_i hv
    exact integer_of_writtenIn hwritten hv line w
  · rename_i hv
    rw [integer_of_large (fun u hu => ?_), String.ofList_toList]
    rw [hwritten.unique hu] at hv
    exact Nat.lt_of_not_le hv

/-- Integers are read from text exactly if they are safe, and then exactly. A text that is, between
white space, an optional sign and digits is read as the double of the integer they write, if that is
safe, and the double has the value of the integer; any other text is refused, by itself and on the
given line. So different integers never become equal numbers, and the text of a machine integer is
read back if it is safe and refused if it is not. The same comes of reading a machine integer first
and checking its magnitude, which is right for the least one too. -/
theorem integer_exact :
    (∀ (text : List Char) (line : Nat) (w : World),
      (∀ v, WrittenIn text v → v.natAbs ≤ 2 ^ 53 - 1 →
        integer text line w = (.done (.number (.ofInt v)), w)) ∧
      ((∀ v, WrittenIn text v → 2 ^ 53 - 1 < v.natAbs) →
        integer text line w = (.fault (.invalidArgument (.notInteger (.ofList text)) line), w))) ∧
    (∀ v : Int, v.natAbs ≤ 2 ^ 53 - 1 → (Double.ofInt v).value? = some (v : ℚ)) ∧
    (∀ (text other : List Char) (line otherLine : Nat) (w otherWorld : World) (v u : Int)
      (x y : Double), WrittenIn text v → WrittenIn other u → v ≠ u →
        integer text line w = (.done (.number x), w) →
        integer other otherLine otherWorld = (.done (.number y), otherWorld) →
        x.equal y = false) ∧
    (∀ (v : Int64) (line : Nat) (w : World), integer (toString v).toList line w =
      if v.toInt.natAbs ≤ 2 ^ 53 - 1 then (.done (.number (.ofInt v.toInt)), w)
      else (.fault (.invalidArgument (.notInteger (toString v)) line), w)) ∧
    ∀ text : List Char, Double.integerOfText? text =
      (Numeral.int64? (Text.trim text)).bind Double.ofInt64? := by
  refine ⟨fun text line w => ⟨fun v h hv => integer_of_writtenIn h hv line w,
    fun h => integer_of_large h line w⟩, fun v hv => Double.value?_ofInt hv, ?_,
    integer_toString, Double.integerOfText?_eq⟩
  intro text other line otherLine w otherWorld v u x y h hother hne hx hy
  exact equal_eq_false_of_ne h hother hne hx hy

/-- Zeros, a sign and white space make no difference, two integers apart by one are not equal, and
the least machine integer is refused. -/
theorem integer_exact_signed :
    let w : World := ⟨⟨#[], #[], #[], #[], #[]⟩, .start .empty none⟩
    integer " -0017\n".toList 4 w = (.done (.number (.ofInt (-17))), w) ∧
      (Double.ofInt (-17)).equal (.ofInt (-18)) = false ∧
      integer (toString Int64.minValue).toList 4 w =
        (.fault (.invalidArgument (.notInteger (toString Int64.minValue)) 4), w) ∧
      integer "- 1".toList 4 w = (.fault (.invalidArgument (.notInteger "- 1") 4), w) := by
  intro w
  obtain ⟨hread, -, hdistinct, hwords, -⟩ := integer_exact
  have hseventeen : WrittenIn " -0017\n".toList (-17) :=
    Numeral.writtenIn_iff.2 (by decide +kernel)
  have heighteen : WrittenIn "-18".toList (-18) := Numeral.writtenIn_iff.2 (by decide +kernel)
  have hfirst := (hread " -0017\n".toList 4 w).1 (-17) hseventeen (by decide)
  have hsecond := (hread "-18".toList 4 w).1 (-18) heighteen (by decide)
  refine ⟨hfirst, hdistinct _ _ 4 4 w w _ _ _ _ hseventeen heighteen (by decide) hfirst hsecond,
    ?_, ?_⟩
  · rw [hwords, if_neg (by decide)]
  · refine (hread "- 1".toList 4 w).2 fun v hv => ?_
    have hnone : Numeral.integer? (Text.trim "- 1".toList) = none := by decide +kernel
    rw [Numeral.writtenIn_iff, hnone] at hv
    cases hv

end Action

end SmallJava
