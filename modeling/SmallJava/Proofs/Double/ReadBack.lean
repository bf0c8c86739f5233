/-
Reading back what is printed. The positional form of a decimal is digits, or digits, a point and
digits, and is read as a decimal of the same value; doubles depend on nothing but that value. Main
statement: every finite double that is not negative is read back from its positional form.
-/
import SmallJava.Double.Text
import Mathlib.Data.List.TakeWhile
import Mathlib.Tactic.Common

namespace SmallJava

/-! ## Digits -/

namespace Numeral

/-- A point and digits, or nothing where there are no digits. -/
def pointed : List Char → List Char
  | [] => []
  | c :: cs => '.' :: c :: cs

variable {whole fraction : List Char}

theorem takeWhile_pointed (hw : ∀ c ∈ whole, c.isDigit = true) :
    (whole ++ pointed fraction).takeWhile Char.isDigit = whole := by
  rw [List.takeWhile_append_of_pos hw]
  cases fraction <;> simp [pointed]

theorem dropWhile_pointed (hw : ∀ c ∈ whole, c.isDigit = true) :
    (whole ++ pointed fraction).dropWhile Char.isDigit = pointed fraction := by
  rw [List.dropWhile_append_of_pos hw]
  cases fraction <;> simp [pointed]

theorem splitFraction_pointed (hf : ∀ c ∈ fraction, c.isDigit = true) :
    splitFraction (pointed fraction) = (fraction, []) := by
  cases fraction with
  | nil => rfl
  | cons c cs =>
    have hc : c.isDigit = true := hf c (List.mem_cons_self ..)
    have hcs : ∀ x ∈ cs, x.isDigit = true := fun x hx => hf x (List.mem_cons_of_mem _ hx)
    simp only [pointed, splitFraction, List.takeWhile_cons, List.dropWhile_cons, hc, if_true]
    rw [List.takeWhile_eq_self_iff.2 hcs, List.dropWhile_eq_nil_iff.2 hcs]

theorem decimal?_pointed (hne : whole ≠ []) (hw : ∀ c ∈ whole, c.isDigit = true)
    (hf : ∀ c ∈ fraction, c.isDigit = true) :
    decimal? (whole ++ pointed fraction) =
      some ⟨value (whole ++ fraction), -(fraction.length : Int)⟩ := by
  unfold decimal?
  rw [takeWhile_pointed hw, dropWhile_pointed hw, splitFraction_pointed hf]
  simp [hne, exponent?]

end Numeral

/-! ## The positional form -/

namespace Decimal

theorem isDigit_of_mem_toDigits {n : Nat} {c : Char} (h : c ∈ Nat.toDigits 10 n) :
    c.isDigit = true := Nat.isDigit_of_mem_toDigits (by decide) (by decide) h

theorem withPoint_eq {digits : List Char} (hd : ∀ c ∈ digits, c.isDigit = true) (places : Nat)
    (hp : places ≠ 0) : ∃ whole fraction, whole ≠ [] ∧ (∀ c ∈ whole, c.isDigit = true) ∧
      (∀ c ∈ fraction, c.isDigit = true) ∧
      withPoint digits places = whole ++ Numeral.pointed fraction ∧
      Numeral.value (whole ++ fraction) = Numeral.value digits ∧ fraction.length = places := by
  unfold withPoint
  dsimp only
  generalize hpad : List.replicate (places + 1 - digits.length) '0' ++ digits = padded
  have hall : ∀ c ∈ padded, c.isDigit = true := by
    intro c hc
    rw [← hpad] at hc
    rcases List.mem_append.1 hc with hc | hc
    · rw [List.eq_of_mem_replicate hc]; rfl
    · exact hd c hc
  have hlen : places + 1 ≤ padded.length := by
    rw [← hpad, List.length_append, List.length_replicate]
    omega
  have hval : Numeral.value padded = Numeral.value digits := by
    rw [← hpad, Numeral.value, Nat.ofDigitChars_append, Nat.ofDigitChars_replicate_zero, Nat.mul_zero,
      Numeral.value]
  have hfrac : (padded.drop (padded.length - places)).length = places := by
    rw [List.length_drop]
    omega
  refine ⟨padded.take (padded.length - places), padded.drop (padded.length - places), ?_, ?_, ?_, ?_,
    ?_, hfrac⟩
  · intro h
    have := congrArg List.length h
    rw [List.length_take, List.length_nil] at this
    omega
  · exact fun c hc => hall c (List.mem_of_mem_take hc)
  · exact fun c hc => hall c (List.mem_of_mem_drop hc)
  · generalize padded.drop (padded.length - places) = fraction at hfrac
    cases fraction with
    | nil => exact absurd hfrac.symm hp
    | cons c cs => rfl
  · rw [List.take_append_drop, hval]

/-- The positional form is digits with or without a fraction, which have the value of the decimal. -/
theorem positional_eq (d : Decimal) : ∃ whole fraction, whole ≠ [] ∧
    (∀ c ∈ whole, c.isDigit = true) ∧ (∀ c ∈ fraction, c.isDigit = true) ∧
    d.positional = whole ++ Numeral.pointed fraction ∧
    Numeral.value (whole ++ fraction) = d.digits * Nat.pow 10 d.exponent.toNat ∧
    fraction.length = (-d.exponent).toNat := by
  have hdigits : Numeral.value (Nat.toDigits 10 d.digits) = d.digits := Nat.ofDigitChars_ten_toDigits
  unfold positional
  dsimp only
  split
  · -- a whole number: zeros after its digits
    rename_i he
    refine ⟨Nat.toDigits 10 d.digits ++ List.replicate d.exponent.toNat '0', [], ?_, ?_,
      fun c hc => absurd hc List.not_mem_nil, by rw [Numeral.pointed, List.append_nil], ?_, ?_⟩
    · intro h
      exact Nat.toDigits_ne_nil (List.append_eq_nil_iff.1 h).1
    · intro c hc
      rcases List.mem_append.1 hc with hc | hc
      · exact isDigit_of_mem_toDigits hc
      · rw [List.eq_of_mem_replicate hc]; rfl
    · rw [List.append_nil, Numeral.value, Nat.ofDigitChars_append, Nat.ofDigitChars_replicate_zero,
        ← Numeral.value, hdigits, Nat.mul_comm, Nat.pow_eq]
    · rw [List.length_nil]
      omega
  · -- a fraction: a point among its digits
    rename_i he
    obtain ⟨whole, fraction, h1, h2, h3, h4, h5, h6⟩ :=
      withPoint_eq (fun _ => isDigit_of_mem_toDigits (n := d.digits)) (-d.exponent).toNat (by omega)
    refine ⟨whole, fraction, h1, h2, h3, h4, ?_, h6⟩
    rw [h5, hdigits, show d.exponent.toNat = 0 by omega]
    exact (Nat.mul_one d.digits).symm

/-- What is printed in the positional form is read as a decimal without a power of ten. -/
theorem decimal?_positional (d : Decimal) : Numeral.decimal? d.positional =
    some ⟨d.digits * Nat.pow 10 d.exponent.toNat, -((-d.exponent).toNat : Int)⟩ := by
  obtain ⟨whole, fraction, h1, h2, h3, h4, h5, h6⟩ := d.positional_eq
  rw [h4, Numeral.decimal?_pointed h1 h2 h3, h5, h6]

end Decimal

/-! ## Powers of ten -/

theorem decimalLength_mul_pow {k : Nat} (hk : k ≠ 0) (j : Nat) :
    decimalLength (k * Nat.pow 10 j) = decimalLength k + j := by
  rw [Nat.pow_eq]
  induction j with
  | zero => rw [Nat.pow_zero, Nat.mul_one, Nat.add_zero]
  | succ j ih =>
    have hpos : 0 < k * 10 ^ j := Nat.mul_pos (Nat.pos_of_ne_zero hk) (Nat.pow_pos (by decide))
    have happ := Nat.toDigits_append_toDigits (b := 10) (d := 0) (by decide) hpos (by decide)
    rw [Nat.add_zero, Nat.mul_comm 10, Nat.mul_assoc, ← Nat.pow_succ] at happ
    have hstep : decimalLength (k * 10 ^ (j + 1)) = decimalLength (k * 10 ^ j) + 1 := by
      rw [decimalLength, ← happ, List.length_append, Nat.toDigits_zero]
      rfl
    rw [hstep, ih, Nat.add_assoc]

theorem nearestUnits_scale {c : Nat} (hc : 0 < c) (num den : Nat) :
    nearestUnits (c * num) (c * den) = nearestUnits num den := by
  have hq : c * num / (c * den) = num / den := Nat.mul_div_mul_left _ _ hc
  have hn (step : Nat) : nearestQuotient (c * num) (c * den * step) =
      nearestQuotient num (den * step) := by
    unfold nearestQuotient
    dsimp only
    rw [Nat.mul_assoc, Nat.mul_div_mul_left _ _ hc, Nat.mul_mod_mul_left]
    have hlt : 2 * (c * (num % (den * step))) < c * (den * step) ↔
        2 * (num % (den * step)) < den * step := by
      rw [Nat.mul_left_comm]
      exact Nat.mul_lt_mul_left hc
    have heq : 2 * (c * (num % (den * step))) = c * (den * step) ↔
        2 * (num % (den * step)) = den * step := by
      rw [Nat.mul_left_comm]
      exact Nat.mul_right_inj (Nat.ne_of_gt hc)
    simp only [hlt, heq]
  unfold nearestUnits
  dsimp only
  rw [hq, hn]

namespace Double

theorem round_scale {c : Nat} (hc : 0 < c) (negative : Bool) (num den : Nat) :
    round negative (c * num) (c * den) = round negative num den := by
  rw [round, nearestUnits_scale hc, round]

/-- Powers of ten in the digits may as well stand in the exponent. -/
theorem ofDecimal_mul_pow (negative : Bool) (k j : Nat) (e : Int) :
    ofDecimal negative ⟨k * Nat.pow 10 j, e⟩ = ofDecimal negative ⟨k, e + j⟩ := by
  by_cases hk : k = 0
  · subst hk
    simp only [ofDecimal, Nat.zero_mul, if_true]
  · have hk' : k * Nat.pow 10 j ≠ 0 := Nat.mul_ne_zero hk (Nat.ne_of_gt (Nat.pow_pos (by decide)))
    have hplace : Decimal.place ⟨k * Nat.pow 10 j, e⟩ = Decimal.place ⟨k, e + j⟩ := by
      simp only [Decimal.place, decimalLength_mul_pow hk]
      omega
    -- the tens that cancel
    obtain ⟨m, hnum, hden⟩ : ∃ m, j + e.toNat = m + (e + j).toNat ∧
        (-e).toNat = m + (-(e + j)).toNat := ⟨(-e).toNat - (-(e + j)).toNat, by omega, by omega⟩
    have hn : unitsPerOne * (k * Nat.pow 10 j * Nat.pow 10 e.toNat) =
        10 ^ m * (unitsPerOne * (k * Nat.pow 10 (e + j).toNat)) := by
      simp only [Nat.pow_eq]
      rw [Nat.mul_assoc k, ← Nat.pow_add, hnum, Nat.pow_add, Nat.mul_left_comm k,
        Nat.mul_left_comm unitsPerOne]
    have hd : Nat.pow 10 (-e).toNat = 10 ^ m * Nat.pow 10 (-(e + j)).toNat := by
      simp only [Nat.pow_eq]
      rw [hden, Nat.pow_add]
    simp only [ofDecimal, hk, hk', hplace, if_false]
    rw [hn, hd, round_scale (Nat.pow_pos (by decide))]

theorem ofDecimal_trimZeros (negative : Bool) (digits : Nat) (e : Int) :
    ofDecimal negative (Decimal.trimZeros digits e) = ofDecimal negative ⟨digits, e⟩ := by
  induction digits, e using Decimal.trimZeros.induct with
  | case1 digits e h ih =>
    rw [Decimal.trimZeros, if_pos h, ih]
    have h' := ofDecimal_mul_pow negative (digits / 10) 1 e
    rw [Nat.pow_eq, Nat.pow_one, show digits / 10 * 10 = digits by omega] at h'
    exact h'.symm
  | case2 digits e h => rw [Decimal.trimZeros, if_neg h]

/-- The value of a printed decimal is that of the decimal. -/
theorem ofNumeral?_positional (negative : Bool) (d : Decimal) :
    ofNumeral? negative d.positional = some (ofDecimal negative d) := by
  rw [ofNumeral?, Decimal.decimal?_positional, Option.map_some, ofDecimal_mul_pow]
  congr 3
  omega

/-! ## The exact expansion -/

theorem nearestUnits_self {units : Nat} (h : Representable units) : nearestUnits units 1 = units := by
  obtain ⟨-, k, hk⟩ := h
  unfold nearestUnits nearestQuotient spacing
  dsimp only
  rw [Nat.div_one, Nat.one_mul]
  generalize hstep : Nat.pow 2 (units.log2 - 52) = step at hk
  have hpos : 0 < step := hstep ▸ two_pow_pos _
  rw [hk, Nat.mul_mod_right, Nat.mul_div_cancel_left _ hpos, Nat.mul_zero, if_pos (Or.inl hpos),
    Nat.mul_comm]

theorem round_self {units : Nat} (h : Representable units) (negative : Bool) :
    round negative units 1 = .finite negative units h := by
  rw [round, nearestUnits_self h, ofUnits_of_representable h]

theorem five_pow_pos (n : Nat) : 0 < Nat.pow 5 n := Nat.pow_pos (by decide)

theorem ten_pow_pos (n : Nat) : 0 < Nat.pow 10 n := Nat.pow_pos (by decide)

theorem ten_pow_le_five_pow : Nat.pow 10 750 ≤ Nat.pow 5 1074 := by decide +kernel

theorem expansion_bound : Nat.pow 5 1074 * unitsBound ≤ Nat.pow 10 1383 := by decide +kernel

theorem two_mul_five_pow : unitsPerOne * Nat.pow 5 1074 = Nat.pow 10 1074 := by decide +kernel

theorem expansion_ne_zero {units : Nat} (h0 : units ≠ 0) : expansion units ≠ 0 := by
  rw [expansion]
  exact Nat.mul_ne_zero (Nat.ne_of_gt (five_pow_pos 1074)) h0

/-- The expansion of a double other than zero is inside the range that is rounded. -/
theorem place_expansion {units : Nat} (h : Representable units) (h0 : units ≠ 0) :
    -324 < Decimal.place ⟨expansion units, -1074⟩ ∧
      Decimal.place ⟨expansion units, -1074⟩ < 310 := by
  have hlow : Nat.pow 10 750 ≤ expansion units := by
    rw [expansion]
    exact Nat.le_trans ten_pow_le_five_pow (Nat.le_mul_of_pos_right _ (Nat.pos_of_ne_zero h0))
  have hhigh : expansion units < Nat.pow 10 1383 := by
    rw [expansion]
    exact Nat.lt_of_lt_of_le (Nat.mul_lt_mul_of_pos_left h.1 (five_pow_pos 1074)) expansion_bound
  have h1 : ¬ decimalLength (expansion units) ≤ 750 := fun hle =>
    absurd ((Nat.length_toDigits_le_iff (by decide) (by decide)).1 hle) (Nat.not_lt.2 hlow)
  have h2 : decimalLength (expansion units) ≤ 1383 :=
    (Nat.length_toDigits_le_iff (by decide) (by decide)).2 hhigh
  simp only [Decimal.place]
  omega

theorem ofDecimal_neg {k n : Nat} (hk : k ≠ 0) (h1 : -324 < Decimal.place ⟨k, -(n : Int)⟩)
    (h2 : Decimal.place ⟨k, -(n : Int)⟩ < 310) (negative : Bool) :
    ofDecimal negative ⟨k, -(n : Int)⟩ = round negative (unitsPerOne * k) (Nat.pow 10 n) := by
  have hnum : (-(n : Int)).toNat = 0 := by omega
  have hden : (- -(n : Int)).toNat = n := by omega
  simp only [ofDecimal, hk, if_false, if_neg (Int.not_le.2 h2), if_neg (Int.not_le.2 h1)]
  rw [hnum, hden, show Nat.pow 10 0 = 1 from rfl, Nat.mul_one]

theorem ofDecimal_expansion {units : Nat} (h : Representable units) (h0 : units ≠ 0) :
    ofDecimal false ⟨expansion units, -1074⟩ = .finite false units h := by
  obtain ⟨h1, h2⟩ := place_expansion h h0
  have hnum : unitsPerOne * expansion units = Nat.pow 10 1074 * units := by
    rw [expansion, ← Nat.mul_assoc, two_mul_five_pow]
  -- the power of ten cancels, and the count of units rounds to itself
  have hround := round_scale (ten_pow_pos 1074) false units 1
  rw [Nat.mul_one, round_self h, ← hnum] at hround
  exact (ofDecimal_neg (n := 1074) (expansion_ne_zero h0) h1 h2 false).trans hround

/-! ## The shortest decimal -/

theorem dropDigits?_reads {units dropped : Nat} {d : Decimal}
    (h : dropDigits? units dropped = some d) : ofDecimal false d = ofUnits false units := by
  unfold dropDigits? at h
  dsimp only at h
  -- whichever of the two is tried first, it has been read back
  generalize (if 2 * (expansion units % Nat.pow 10 dropped) < Nat.pow 10 dropped then
    (expansion units / Nat.pow 10 dropped, expansion units / Nat.pow 10 dropped + 1) else
    (expansion units / Nat.pow 10 dropped + 1, expansion units / Nat.pow 10 dropped)) = pair at h
  obtain ⟨nearer, other⟩ := pair
  dsimp only at h
  split at h
  · rename_i hr; cases h; exact of_decide_eq_true hr
  · split at h
    · rename_i hr; cases h; exact of_decide_eq_true hr
    · cases h

theorem ofDecimal_shortestFrom {units : Nat} (h : Representable units) (h0 : units ≠ 0)
    (dropped : Nat) : ofDecimal false (shortestFrom units dropped) = .finite false units h := by
  induction dropped with
  | zero => rw [shortestFrom, ofDecimal_expansion h h0]
  | succ dropped ih =>
    rw [shortestFrom]
    split
    · rename_i d hd
      rw [dropDigits?_reads hd, ofUnits_of_representable h]
    · exact ih

theorem ofDecimal_shortest {units : Nat} (h : Representable units) :
    ofDecimal false (shortest units) = .finite false units h := by
  unfold shortest
  split
  · rename_i h0
    subst h0
    simp only [ofDecimal, if_true, zero]
  · rename_i h0
    exact (ofDecimal_trimZeros _ _ _).trans (ofDecimal_shortestFrom h h0 _)

/-- A finite double that is not negative is read back from its text. -/
theorem ofNumeral?_text {units : Nat} (h : Representable units) :
    ofNumeral? false (text (.finite false units h)).toList = some (.finite false units h) := by
  rw [text, String.toList_ofList]
  exact (ofNumeral?_positional false (shortest units)).trans (congrArg some (ofDecimal_shortest h))

end Double

end SmallJava
