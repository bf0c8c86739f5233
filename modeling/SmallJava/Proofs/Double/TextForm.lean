/-
The text form of a number, read as a number. Finite numbers are digits with or without a point and
perhaps a minus sign, and come back with their sign, that of zero included; so does what is not a
number. The word for infinities is not one of the two that are read. Main statement: `ofText?_text`.
-/
import SmallJava.Proofs.Decimal.Numeral
import SmallJava.Proofs.Double.ReadBack
import SmallJava.Proofs.Text.Trim
import SmallJava.Store.Member

namespace SmallJava

/-! ## Characters of the text form -/

/-- The positional form starts with a digit and has no white space. -/
theorem Decimal.positional_head (d : Decimal) : ∃ c cs, d.positional = c :: cs ∧
    c.isDigit = true ∧ ∀ x ∈ c :: cs, Text.isBlank x = false := by
  obtain ⟨whole, fraction, hne, hwhole, hfraction, heq, -⟩ := d.positional_eq
  have hblank : ∀ x ∈ whole ++ Numeral.pointed fraction, Text.isBlank x = false := by
    intro x hx
    rcases List.mem_append.1 hx with hx | hx
    · exact Text.isBlank_of_isDigit (hwhole x hx)
    · cases fraction with
      | nil => cases hx
      | cons f fs =>
        rcases List.mem_cons.1 hx with rfl | hx
        · rfl
        · exact Text.isBlank_of_isDigit (hfraction x hx)
  cases whole with
  | nil => exact absurd rfl hne
  | cons c cs =>
    refine ⟨c, cs ++ Numeral.pointed fraction, heq, hwhole c List.mem_cons_self, ?_⟩
    simpa using hblank

namespace Double

/-! ## Signs -/

/-- A decimal is rounded alike on both sides of zero. -/
theorem ofDecimal_true (d : Decimal) : ofDecimal true d = neg (ofDecimal false d) := by
  unfold ofDecimal round ofUnits
  split
  · rfl
  · split
    · rfl
    · split
      · rfl
      · dsimp only
        split <;> rfl

theorem ne_of_isDigit_head {c l : Char} {cs word : List Char} (hc : c.isDigit = true)
    (hword : word.head? = some l) (hl : l.isDigit = false) : c :: cs ≠ word := by
  rintro rfl
  cases hword
  rw [hc] at hl
  cases hl

/-- A text that starts with a digit is a numeral, and so is what follows a sign in front of it. -/
theorem ofText?_of_digit {c : Char} {cs : List Char} (hc : c.isDigit = true)
    (hcs : ∀ x ∈ c :: cs, Text.isBlank x = false) :
    ofText? (c :: cs) = ofNumeral? false (c :: cs) ∧
      ofText? ('-' :: c :: cs) = ofNumeral? true (c :: cs) := by
  have hsign : Numeral.splitSign (c :: cs) = (false, c :: cs) :=
    Numeral.splitSign_eq_self (by simpa using Numeral.isSign_of_isDigit hc)
  have hinfinity : c :: cs ≠ "Infinity".toList := ne_of_isDigit_head hc (l := 'I') (by simp) rfl
  have hnan : c :: cs ≠ "NaN".toList := ne_of_isDigit_head hc (l := 'N') (by simp) rfl
  have hminus : ∀ x ∈ '-' :: c :: cs, Text.isBlank x = false := by
    intro x hx
    rcases List.mem_cons.1 hx with rfl | hx
    · rfl
    · exact hcs x hx
  unfold ofText?
  rw [Text.trim_eq_self hcs, Text.trim_eq_self hminus, hsign]
  simp only [Numeral.splitSign, hinfinity, hnan, if_false, and_self]

/-- A finite double is read back from its text, the sign of zero included. -/
theorem ofText?_text_finite (negative : Bool) {units : Nat} (h : Representable units) :
    ofText? (text (.finite negative units h)).toList = some (.finite negative units h) := by
  obtain ⟨c, cs, hform, hc, hcs⟩ := (shortest units).positional_head
  obtain ⟨hplus, hminus⟩ := ofText?_of_digit hc hcs
  have hvalue := ofDecimal_shortest h
  rw [text, String.toList_ofList]
  cases negative with
  | false =>
    calc ofText? (shortest units).positional
        = ofNumeral? false (shortest units).positional := by rw [hform, hplus]
      _ = some (.finite false units h) := by rw [ofNumeral?_positional, hvalue]
  | true =>
    calc ofText? ('-' :: (shortest units).positional)
        = ofNumeral? true (shortest units).positional := by rw [hform, hminus]
      _ = some (neg (.finite false units h)) := by
        rw [ofNumeral?_positional, ofDecimal_true, hvalue]

/-! ## The text form of a value -/

theorem ofText?_text_nan : ofText? (text .nan).toList = some .nan := by decide +kernel

theorem ofText?_text_infinite (negative : Bool) :
    ofText? (text (.infinite negative)).toList = none := by
  cases negative <;> decide +kernel

/-- What a number is written as, printed or joined to a text, is read as that number, unless it is
infinite, and then it is read as none. -/
theorem ofText?_text (s : Store) (x : Double) :
    ofText? (s.text (.number x)).toList = match x with
      | .infinite _ => none
      | x => some x := by
  cases x with
  | nan => exact ofText?_text_nan
  | infinite negative => exact ofText?_text_infinite negative
  | finite negative units h => exact ofText?_text_finite negative h

/-- One divided by zero is written as a word that is not read. -/
theorem ofText?_text_one_by_zero :
    (∃ x, x = div (round false unitsPerOne 1) (zero false) ∧ text x = "inf" ∧
      ofText? "inf".toList = none) ∧
    ¬ ∀ (s : Store) (x : Double), ofText? (s.text (.number x)).toList = some x := by
  constructor
  · exact ⟨.infinite false, by decide +kernel, rfl, by decide +kernel⟩
  · intro h
    have hread : ofText? (text (.infinite false)).toList = some (.infinite false) :=
      h ⟨#[], #[], #[], #[], #[]⟩ (.infinite false)
    rw [ofText?_text_infinite] at hread
    cases hread

end Double

end SmallJava
