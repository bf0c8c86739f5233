/-
What numerals are. A run of digits is one digit, or a run and one digit more behind it; a decimal has
digits, perhaps a point among them, and perhaps a power of ten. Main statements:
`integer?_eq_some_iff` and `isSome_decimal?`, texts are read as numerals exactly if they are.
-/
import SmallJava.Decimal.Numeral
import SmallJava.Proofs.Token.Longest

namespace SmallJava

open Computability Pattern

/-! ## Decimals as a set of texts -/

namespace Pattern

/-- Digits, with a point behind, among or in front of them: `[0-9]+|[0-9]+\.[0-9]*|[0-9]*\.[0-9]+`. -/
def mantissa : Language Char :=
  plus (one Char.isDigit) +
    (plus (one Char.isDigit) * (exactly ['.'] * (one Char.isDigit)∗) +
      (one Char.isDigit)∗ * (exactly ['.'] * plus (one Char.isDigit)))

/-- A decimal without a sign: a mantissa, and perhaps `[eE][+-]?[0-9]+`. -/
def decimal : Language Char := mantissa * opt exponent

variable {w : List Char}

/-- A mantissa has digits, and the point may stand anywhere. -/
theorem mem_mantissa : w ∈ mantissa ↔
    ∃ whole, (∀ c ∈ whole, c.isDigit = true) ∧ ((whole ≠ [] ∧ w = whole) ∨
      ∃ fraction, (∀ c ∈ fraction, c.isDigit = true) ∧ whole ++ fraction ≠ [] ∧
        w = whole ++ '.' :: fraction) := by
  simp only [mantissa, Language.mem_add, Language.mem_mul, mem_plus_one, mem_one_kstar,
    mem_exactly]
  constructor
  · rintro (⟨hne, hw⟩ | ⟨whole, ⟨hne, hw⟩, _, ⟨_, rfl, fraction, hf, rfl⟩, rfl⟩ |
      ⟨whole, hw, _, ⟨_, rfl, fraction, ⟨hne, hf⟩, rfl⟩, rfl⟩)
    · exact ⟨w, hw, Or.inl ⟨hne, rfl⟩⟩
    · exact ⟨whole, hw, Or.inr ⟨fraction, hf, by simp [hne], rfl⟩⟩
    · exact ⟨whole, hw, Or.inr ⟨fraction, hf, by simp [hne], rfl⟩⟩
  · rintro ⟨whole, hw, ⟨hne, rfl⟩ | ⟨fraction, hf, hne, rfl⟩⟩
    · exact Or.inl ⟨hne, hw⟩
    · refine Or.inr ?_
      cases whole with
      | nil => exact Or.inr ⟨[], hw, _, ⟨['.'], rfl, fraction, ⟨hne, hf⟩, rfl⟩, rfl⟩
      | cons c cs =>
        exact Or.inl ⟨c :: cs, ⟨List.cons_ne_nil c cs, hw⟩, _, ⟨['.'], rfl, fraction, hf, rfl⟩, rfl⟩

/-- The numbers of a source text are decimals with digits on both sides of the point. -/
theorem mem_decimal_of_number (h : w ∈ number) : w ∈ decimal := by
  obtain ⟨whole, hwhole, rest, hrest, rfl⟩ := Language.mem_mul.1 h
  have hdigits := mem_plus_one.1 hwhole
  rcases mem_opt_mul.1 hrest with hexponent | hrest
  · exact Language.append_mem_mul (mem_mantissa.2 ⟨whole, hdigits.2, Or.inl ⟨hdigits.1, rfl⟩⟩)
      hexponent
  · obtain ⟨_, hpoint, e, he, rfl⟩ := Language.mem_mul.1 hrest
    obtain ⟨fraction, hfraction, rfl⟩ := mem_exactly_mul.1 hpoint
    rw [← List.append_assoc]
    exact Language.append_mem_mul (mem_mantissa.2 ⟨whole, hdigits.2, Or.inr ⟨fraction,
      (mem_plus_one.1 hfraction).2, by simp [hdigits.1], rfl⟩⟩) he

/-- A run before words that leave it is taken off as a whole. -/
theorem span_of_leaves {p : Char → Bool} {l : Language Char} (hl : Leaves p l) {ds w : List Char}
    (hd : ∀ d ∈ ds, p d = true) (hw : w ∈ l) :
    (ds ++ w).takeWhile p = ds ∧ (ds ++ w).dropWhile p = w := by
  rw [List.takeWhile_append_of_pos hd, List.dropWhile_append_of_pos hd]
  rcases hl w hw with rfl | ⟨c, cs, rfl, hc⟩
  · exact ⟨List.append_nil ds, rfl⟩
  · rw [List.takeWhile_cons_of_neg (by simp [hc]), List.dropWhile_cons_of_neg (by simp [hc])]
    exact ⟨List.append_nil ds, rfl⟩

end Pattern

namespace Numeral

variable {cs ds w : List Char} {c : Char} {n : Nat} {v : Int}

/-! ## Signs -/

theorem splitSign_eq_self (h : ∀ c ∈ cs.head?, isSign c = false) : splitSign cs = (false, cs) := by
  unfold splitSign
  split
  · cases h '-' rfl
  · cases h '+' rfl
  · rfl

theorem splitSign_cons (hc : isSign c = true) (cs : List Char) :
    splitSign (c :: cs) = (decide (c = '-'), cs) := by
  simp only [isSign, Bool.or_eq_true, decide_eq_true_eq] at hc
  rcases hc with rfl | rfl <;> rfl

theorem isSign_of_isDigit (hc : c.isDigit = true) : isSign c = false := by
  rw [Bool.eq_false_iff]
  intro hs
  simp only [isSign, Bool.or_eq_true, decide_eq_true_eq] at hs
  rcases hs with rfl | rfl <;> cases hc

/-- What follows the sign of a text, if it has one, is in a set whose words have none. -/
theorem mem_opt_sign_mul {l : Language Char} (hl : Leaves isSign l) :
    cs ∈ opt (one isSign) * l ↔ (splitSign cs).2 ∈ l := by
  rw [mem_opt_mul, mem_one_mul]
  constructor
  · rintro (h | ⟨c, rest, rfl, hc, hrest⟩)
    · rwa [splitSign_eq_self fun c hc => ?_]
      rcases hl _ h with rfl | ⟨d, ds, rfl, hd⟩
      · cases hc
      · cases hc
        exact hd
    · rwa [splitSign_cons hc]
  · intro h
    unfold splitSign at h
    split at h
    · exact Or.inr ⟨'-', _, rfl, rfl, h⟩
    · exact Or.inr ⟨'+', _, rfl, rfl, h⟩
    · exact Or.inl h

/-! ## Integers -/

/-- The digits write the number. -/
inductive Digits : List Char → Nat → Prop
  | one {c : Char} : c.isDigit = true → Digits [c] (c.toNat - '0'.toNat)
  | snoc {ds : List Char} {n : Nat} {c : Char} : Digits ds n → c.isDigit = true →
      Digits (ds ++ [c]) (10 * n + (c.toNat - '0'.toNat))

/-- The text is an optional sign and digits that write the number with that sign. -/
inductive Signed : List Char → Int → Prop
  | unsigned {ds : List Char} {n : Nat} : Digits ds n → Signed ds n
  | plus {ds : List Char} {n : Nat} : Digits ds n → Signed ('+' :: ds) n
  | minus {ds : List Char} {n : Nat} : Digits ds n → Signed ('-' :: ds) (-n)

theorem value_snoc (ds : List Char) (c : Char) :
    value (ds ++ [c]) = 10 * value ds + (c.toNat - '0'.toNat) := by
  rw [value, Nat.ofDigitChars_append, Nat.ofDigitChars_cons]
  rfl

theorem digits_iff : Digits ds n ↔ ds ≠ [] ∧ (∀ c ∈ ds, c.isDigit = true) ∧ value ds = n := by
  constructor
  · intro h
    induction h with
    | @one c hc => exact ⟨List.cons_ne_nil c [], by simpa using hc, by simp [value, Nat.ofDigitChars]⟩
    | @snoc ds n c _ hc ih =>
      obtain ⟨-, hall, hvalue⟩ := ih
      refine ⟨by simp, fun d hd => ?_, by rw [value_snoc, hvalue]⟩
      rcases List.mem_append.1 hd with hd | hd
      · exact hall d hd
      · rwa [List.mem_singleton.1 hd]
  · rintro ⟨hne, hall, rfl⟩
    induction ds using List.reverseRecOn with
    | nil => exact absurd rfl hne
    | append_singleton ds c ih =>
      have hc : c.isDigit = true := hall c (by simp)
      rw [value_snoc]
      by_cases hds : ds = []
      · subst hds
        simpa [value, Nat.ofDigitChars] using Digits.one hc
      · exact .snoc (ih hds fun d hd => hall d (List.mem_append_left _ hd)) hc

theorem integer?_of_splitSign {negative : Bool} (h : splitSign cs = (negative, ds)) :
    integer? cs = some v ↔ ∃ n, Digits ds n ∧ v = if negative then -(n : Int) else n := by
  simp only [integer?, h, List.all_eq_true, digits_iff]
  constructor
  · intro hv
    split at hv
    · rename_i hds
      exact ⟨value ds, ⟨hds.1, hds.2, rfl⟩, (Option.some.inj hv).symm⟩
    · cases hv
  · rintro ⟨n, ⟨hne, hall, rfl⟩, rfl⟩
    rw [if_pos ⟨hne, hall⟩]

theorem Digits.splitSign_eq (h : Digits ds n) : splitSign ds = (false, ds) :=
  splitSign_eq_self fun c hc =>
    isSign_of_isDigit ((digits_iff.1 h).2.1 c (List.mem_of_mem_head? hc))

/-- Integers are read exactly where they are written. -/
theorem integer?_eq_some_iff : integer? cs = some v ↔ Signed cs v := by
  constructor
  · intro h
    rcases hsign : splitSign cs with ⟨negative, ds⟩
    obtain ⟨n, hds, rfl⟩ := (integer?_of_splitSign hsign).1 h
    unfold splitSign at hsign
    split at hsign <;> cases hsign
    · exact .minus hds
    · exact .plus hds
    · exact .unsigned hds
  · rintro (hds | hds | hds)
    · exact (integer?_of_splitSign hds.splitSign_eq).2 ⟨_, hds, rfl⟩
    · exact (integer?_of_splitSign rfl).2 ⟨_, hds, rfl⟩
    · exact (integer?_of_splitSign rfl).2 ⟨_, hds, rfl⟩

/-! ## Decimals -/

theorem leaves_digits : Leaves isSign (plus (one Char.isDigit)) := by
  intro w hw
  obtain ⟨hne, hall⟩ := mem_plus_one.1 hw
  obtain ⟨c, cs, rfl⟩ := List.exists_cons_of_ne_nil hne
  exact Or.inr ⟨c, cs, rfl, isSign_of_isDigit (hall c List.mem_cons_self)⟩

theorem isSome_integer? :
    (integer? cs).isSome ↔ cs ∈ opt (one isSign) * plus (one Char.isDigit) := by
  rw [mem_opt_sign_mul leaves_digits, mem_plus_one]
  simp [integer?]

theorem isSome_exponent? : (exponent? cs).isSome ↔ cs ∈ opt exponent := by
  cases cs with
  | nil => simp [exponent?]
  | cons c cs =>
    rw [mem_opt, exponent, mem_one_mul, exponent?]
    have hc : isExponent c = true ↔ c = 'e' ∨ c = 'E' := by simp [isExponent]
    split
    · rename_i h
      simp [hc, h, isSome_integer?]
    · rename_i h
      simp [hc, h]

/-- No power of ten starts with a point. -/
theorem splitFraction_of_exponent (h : w ∈ opt exponent) : splitFraction w = ([], w) := by
  unfold splitFraction
  split
  · rcases mem_opt.1 h with h | h
    · cases h
    · obtain ⟨c, cs, hc, he, -⟩ := mem_one_mul.1 h
      cases hc
      cases he
  · rfl

/-- The digits behind a point are split off, and nothing is where there is no point. -/
theorem splitFraction_cases (cs : List Char) : splitFraction cs = ([], cs) ∨
    ∃ fraction rest, (∀ c ∈ fraction, c.isDigit = true) ∧ cs = '.' :: fraction ++ rest ∧
      splitFraction cs = (fraction, rest) := by
  unfold splitFraction
  split
  · rename_i cs
    exact Or.inr ⟨cs.takeWhile Char.isDigit, cs.dropWhile Char.isDigit,
      fun c hc => List.mem_takeWhile_imp hc, by simp, rfl⟩
  · exact Or.inl rfl

theorem isSome_decimal?_iff : (decimal? cs).isSome ↔
    cs.takeWhile Char.isDigit ++ (splitFraction (cs.dropWhile Char.isDigit)).1 ≠ [] ∧
      (splitFraction (cs.dropWhile Char.isDigit)).2 ∈ opt exponent := by
  rw [← isSome_exponent?]
  unfold decimal?
  dsimp only
  split
  · rename_i h
    simp [h]
  · rename_i h
    simp only [Option.isSome_map]
    exact ⟨fun he => ⟨h, he⟩, fun he => he.2⟩

/-- Decimals are read exactly where they are written. -/
theorem isSome_decimal? : (decimal? cs).isSome ↔ cs ∈ decimal := by
  rw [isSome_decimal?_iff]
  constructor
  · rintro ⟨hne, he⟩
    have hcs : cs = cs.takeWhile Char.isDigit ++ cs.dropWhile Char.isDigit :=
      List.takeWhile_append_dropWhile.symm
    have hwhole : ∀ c ∈ cs.takeWhile Char.isDigit, c.isDigit = true :=
      fun c hc => List.mem_takeWhile_imp hc
    -- the digits, the point behind them and the digits behind it make the mantissa
    rcases splitFraction_cases (cs.dropWhile Char.isDigit) with hsplit | ⟨fraction, rest, hfraction,
      hdrop, hsplit⟩
    · rw [hsplit] at hne he
      rw [hcs]
      exact Language.append_mem_mul
        (mem_mantissa.2 ⟨_, hwhole, Or.inl ⟨by simpa using hne, rfl⟩⟩) he
    · rw [hsplit] at hne he
      rw [hcs, hdrop, ← List.append_assoc]
      exact Language.append_mem_mul
        (mem_mantissa.2 ⟨_, hwhole, Or.inr ⟨fraction, hfraction, hne, rfl⟩⟩) he
  · intro h
    obtain ⟨m, hm, e, he, rfl⟩ := Language.mem_mul.1 h
    obtain ⟨whole, hwhole, ⟨hne, rfl⟩ | ⟨fraction, hfraction, hne, rfl⟩⟩ := mem_mantissa.1 hm
    · obtain ⟨htake, hdrop⟩ := span_of_leaves leaves_exponent hwhole he
      rw [htake, hdrop, splitFraction_of_exponent he]
      exact ⟨by simpa using hne, he⟩
    · obtain ⟨htake, hdrop⟩ := span_of_leaves leaves_exponent hfraction he
      have hpoint : Leaves Char.isDigit {'.' :: fraction ++ e} := by
        rintro w rfl
        exact Or.inr ⟨'.', fraction ++ e, rfl, rfl⟩
      obtain ⟨hfront, hback⟩ := span_of_leaves hpoint hwhole (Set.mem_singleton _)
      have hsplit : splitFraction ('.' :: fraction ++ e) = (fraction, e) :=
        Prod.ext htake hdrop
      rw [List.append_assoc, hfront, hback, hsplit]
      exact ⟨hne, he⟩

end Numeral

end SmallJava
