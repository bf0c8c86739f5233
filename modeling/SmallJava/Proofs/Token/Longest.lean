/-
The longest word of a pattern at the start of a text, found by looking at the text once: runs of a
class are taken as far as they go, options are taken where they can be, and a text or a comment ends
where it is closed first. Main statements: `longest_number`, `extent_unquoted`,
`extent_commentRest`.
-/
import SmallJava.Proofs.Token.Pattern
import SmallJava.Proofs.Token.Lexical

namespace SmallJava

open Computability

namespace Pattern

/-- The longest words of a set at the start of a text have the given length. -/
structure LongestIn (l : Language Char) (text : List Char) (extent : Nat) : Prop where
  taken : text.take extent ∈ l
  within : extent ≤ text.length
  bound : ∀ w ∈ l, w <+: text → w.length ≤ extent

/-- How long the longest words of a set at the start of a text are, if there are any. -/
def Extent (l : Language Char) (text : List Char) : Option Nat → Prop
  | some extent => LongestIn l text extent
  | none => ∀ w ∈ l, ¬ w <+: text

variable {p : Char → Bool} {l m : Language Char} {text w : List Char} {c : Char} {n : Nat}
  {e : Option Nat}

/-! ## Fixed texts and single characters -/

theorem LongestIn.exactly (h : w <+: text) : LongestIn (exactly w) text w.length where
  taken := (List.prefix_iff_eq_take.1 h).symm
  within := h.length_le
  bound _ hv _ := by rw [mem_exactly.1 hv]

theorem Extent.exactly_mul (h : Extent l text e) (w : List Char) :
    Extent (exactly w * l) (w ++ text) (e.map (w.length + ·)) := by
  cases e with
  | none =>
    intro v hv hp
    obtain ⟨rest, hrest, rfl⟩ := mem_exactly_mul.1 hv
    exact h rest hrest ((List.prefix_append_right_inj w).1 hp)
  | some n =>
    show LongestIn _ _ (w.length + n)
    refine ⟨?_, ?_, fun v hv hp => ?_⟩
    · rw [List.take_length_add_append]
      exact Language.append_mem_mul rfl h.taken
    · have := h.within
      rw [List.length_append]
      omega
    · obtain ⟨rest, hrest, rfl⟩ := mem_exactly_mul.1 hv
      have := h.bound rest hrest ((List.prefix_append_right_inj w).1 hp)
      rw [List.length_append]
      omega

theorem Extent.one_mul (h : Extent l text e) (hc : p c = true) :
    Extent (one p * l) (c :: text) (e.map (1 + ·)) := by
  cases e with
  | none =>
    intro v hv hp
    obtain ⟨d, ds, rfl, -, hds⟩ := mem_one_mul.1 hv
    exact h ds hds (List.cons_prefix_cons.1 hp).2
  | some n =>
    show LongestIn _ _ (1 + n)
    refine ⟨?_, ?_, fun v hv hp => ?_⟩
    · rw [Nat.add_comm, List.take_succ_cons]
      exact mem_one_mul.2 ⟨c, _, rfl, hc, h.taken⟩
    · have := h.within
      rw [List.length_cons]
      omega
    · obtain ⟨d, ds, rfl, -, hds⟩ := mem_one_mul.1 hv
      have := h.bound ds hds (List.cons_prefix_cons.1 hp).2
      rw [List.length_cons]
      omega

/-- Words that start with a class are in no text that does not. -/
theorem extent_one_mul_none (hc : ∀ c cs, text = c :: cs → p c = false) :
    Extent (one p * l) text none := by
  rintro w hw ⟨rest, rfl⟩
  obtain ⟨c, cs, rfl, hp, -⟩ := mem_one_mul.1 hw
  rw [hc c _ rfl] at hp
  cases hp

/-! ## Options -/

/-- An option is taken where it can be. -/
theorem Extent.opt (h : Extent l text e) : LongestIn (opt l) text (e.getD 0) := by
  cases e with
  | none =>
    refine ⟨mem_opt.2 (Or.inl (by simp)), Nat.zero_le _, fun w hw hp => ?_⟩
    rcases mem_opt.1 hw with rfl | hw
    · exact Nat.le_refl 0
    · exact absurd hp (h w hw)
  | some n =>
    refine ⟨mem_opt.2 (Or.inr h.taken), h.within, fun w hw hp => ?_⟩
    rcases mem_opt.1 hw with rfl | hw
    · exact Nat.zero_le n
    · exact h.bound w hw hp

/-- Where there is nothing to choose, an option is left out. -/
theorem Extent.opt_mul (h : Extent m text e) (hl : Extent (l * m) text none) :
    Extent (Pattern.opt l * m) text e := by
  cases e with
  | none =>
    intro w hw hp
    rcases mem_opt_mul.1 hw with hw | hw
    · exact h w hw hp
    · exact hl w hw hp
  | some n =>
    refine ⟨mem_opt_mul.2 (Or.inl h.taken), h.within, fun w hw hp => ?_⟩
    rcases mem_opt_mul.1 hw with hw | hw
    · exact h.bound w hw hp
    · exact absurd hp (hl w hw)

/-- Where nothing goes on without it, an option is taken. -/
theorem Extent.mul_opt (h : Extent (l * m) text e)
    (hm : ∀ w ∈ m, w <+: text → w = [] ∧ e ≠ none) :
    Extent (Pattern.opt l * m) text e := by
  cases e with
  | none =>
    intro w hw hp
    rcases mem_opt_mul.1 hw with hw | hw
    · exact (hm w hw hp).2 rfl
    · exact h w hw hp
  | some n =>
    refine ⟨mem_opt_mul.2 (Or.inr h.taken), h.within, fun w hw hp => ?_⟩
    rcases mem_opt_mul.1 hw with hw | hw
    · rw [(hm w hw hp).1]
      exact Nat.zero_le n
    · exact h.bound w hw hp

/-- Where the words of a set go on with others of the set, they are those behind. -/
theorem Extent.shift {rest : List Char} (h : Extent l rest e) (start : List Char)
    (hmem : ∀ v ∈ l, start ++ v ∈ l)
    (hbound : ∀ w ∈ l, w <+: start ++ rest →
      ∃ v ∈ l, v <+: rest ∧ w.length = v.length + start.length) :
    Extent l (start ++ rest) (e.map (· + start.length)) := by
  cases e with
  | none =>
    intro w hw hp
    obtain ⟨v, hv, hp, -⟩ := hbound w hw hp
    exact h v hv hp
  | some n =>
    show LongestIn _ _ (n + start.length)
    refine ⟨?_, ?_, fun w hw hp => ?_⟩
    · rw [Nat.add_comm, List.take_length_add_append]
      exact hmem _ h.taken
    · have := h.within
      rw [List.length_append]
      omega
    · obtain ⟨v, hv, hp, hlen⟩ := hbound w hw hp
      have := h.bound v hv hp
      omega

/-! ## Runs -/

/-- The words of a set do not go on with a class. -/
def Leaves (p : Char → Bool) (l : Language Char) : Prop :=
  ∀ w ∈ l, w = [] ∨ ∃ c cs, w = c :: cs ∧ p c = false

theorem length_le_takeWhile (hw : ∀ c ∈ w, p c = true) (h : w <+: text) :
    w.length ≤ (text.takeWhile p).length := by
  obtain ⟨rest, rfl⟩ := h
  rw [List.takeWhile_append_of_pos hw, List.length_append]
  omega

/-- A run ends where a word starts that leaves it. -/
theorem takeWhile_of_isPrefix {ds cs : List Char} (hd : ∀ d ∈ ds, p d = true) (hc : p c = false)
    (h : ds ++ c :: cs <+: text) : text.takeWhile p = ds ∧ c :: cs <+: text.dropWhile p := by
  obtain ⟨rest, rfl⟩ := h
  rw [List.append_assoc, List.cons_append, List.takeWhile_append_of_pos hd,
    List.dropWhile_append_of_pos hd, List.takeWhile_cons_of_neg (by simp [hc]),
    List.dropWhile_cons_of_neg (by simp [hc])]
  exact ⟨List.append_nil ds, ⟨rest, rfl⟩⟩

theorem LongestIn.one_kstar : LongestIn (one p)∗ text (text.takeWhile p).length where
  taken := by
    rw [Token.take_takeWhile_length]
    exact mem_one_kstar.2 fun c hc => List.mem_takeWhile_imp hc
  within := (List.takeWhile_prefix p).length_le
  bound _ hw hp := length_le_takeWhile (mem_one_kstar.1 hw) hp

/-- Before what leaves it, a run is taken as far as it goes. -/
theorem LongestIn.run_mul (hl : Leaves p l) (h : LongestIn l (text.dropWhile p) n)
    (hne : text.takeWhile p ≠ []) :
    LongestIn (plus (one p) * l) text ((text.takeWhile p).length + n) where
  taken := by
    rw [List.take_add, Token.take_takeWhile_length, Token.drop_takeWhile_length]
    exact Language.append_mem_mul
      (mem_plus_one.2 ⟨hne, fun c hc => List.mem_takeWhile_imp hc⟩) h.taken
  within := by
    have htext := congrArg List.length (List.takeWhile_append_dropWhile (p := p) (l := text))
    have := h.within
    rw [List.length_append] at htext
    omega
  bound w hw hp := by
    obtain ⟨ds, hds, v, hv, rfl⟩ := Language.mem_mul.1 hw
    have hd := (mem_plus_one.1 hds).2
    rcases hl v hv with rfl | ⟨c, cs, rfl, hc⟩
    · have := length_le_takeWhile hd (by simpa using hp)
      rw [List.append_nil]
      omega
    · obtain ⟨rfl, hrest⟩ := takeWhile_of_isPrefix hd hc hp
      have := h.bound _ hv hrest
      rw [List.length_append]
      omega

theorem LongestIn.plus_one (hne : text.takeWhile p ≠ []) :
    LongestIn (plus (one p)) text (text.takeWhile p).length := by
  have h : LongestIn (plus (one p) * 1) text ((text.takeWhile p).length + 0) :=
    LongestIn.run_mul (fun w hw => Or.inl hw) ⟨by simp, Nat.zero_le _, fun w hw _ => by
      rw [(Language.mem_one w).1 hw]
      exact Nat.le_refl 0⟩ hne
  rwa [mul_one] at h

theorem extent_plus_one_none (h : text.takeWhile p = []) : Extent (plus (one p) * l) text none := by
  intro w hw hp
  obtain ⟨ds, hds, v, -, rfl⟩ := Language.mem_mul.1 hw
  obtain ⟨hne, hall⟩ := mem_plus_one.1 hds
  have := length_le_takeWhile hall ((List.prefix_append ds v).trans hp)
  rw [h] at this
  exact hne (List.length_eq_zero_iff.1 (Nat.le_zero.1 this))

/-! ## Numbers -/

theorem extent_digits (text : List Char) : Extent (plus (one Char.isDigit)) text
    (if Piece.digitsExtent text = 0 then none else some (Piece.digitsExtent text)) := by
  split
  · rename_i h
    have := extent_plus_one_none (l := 1) (List.length_eq_zero_iff.1 h)
    rwa [mul_one] at this
  · rename_i h
    exact LongestIn.plus_one fun h' => h (by rw [Piece.digitsExtent, h', List.length_nil])

theorem extent_signed_cons (hs : isSign c = true) (cs : List Char) :
    Extent (opt (one isSign) * plus (one Char.isDigit)) (c :: cs)
      (if Piece.digitsExtent cs = 0 then none else some (1 + Piece.digitsExtent cs)) := by
  have hd : c.isDigit = false := by
    simp only [isSign, Bool.or_eq_true, decide_eq_true_eq] at hs
    rcases hs with rfl | rfl <;> rfl
  have hsigned := (extent_digits cs).one_mul hs
  have hmap : (if Piece.digitsExtent cs = 0 then none else some (1 + Piece.digitsExtent cs)) =
      (if Piece.digitsExtent cs = 0 then none else some (Piece.digitsExtent cs)).map (1 + ·) := by
    split <;> rfl
  rw [hmap]
  -- where a sign stands, no digit does
  refine hsigned.mul_opt fun w hw hp => absurd hp ?_
  rw [← mul_one (plus _)] at hw
  exact extent_plus_one_none (List.takeWhile_cons_of_neg (by rw [hd]; decide)) w hw

/-- A sign, if there is one, and the digits after it, if there are any. -/
theorem extent_signed (text : List Char) :
    Extent (opt (one isSign) * plus (one Char.isDigit)) text
      (if Piece.digitsExtent (text.drop (Piece.signExtent text)) = 0 then none
        else some (Piece.signExtent text +
          Piece.digitsExtent (text.drop (Piece.signExtent text)))) := by
  unfold Piece.signExtent
  split
  · exact extent_signed_cons rfl _
  · exact extent_signed_cons rfl _
  · rename_i hplus hminus
    simp only [List.drop_zero, Nat.zero_add]
    refine (extent_digits text).opt_mul (extent_one_mul_none fun c cs h => ?_)
    subst h
    have hp : c ≠ '+' := fun h => hplus cs (by rw [h])
    have hm : c ≠ '-' := fun h => hminus cs (by rw [h])
    simp [isSign, hp, hm]

theorem longest_exponent (text : List Char) :
    LongestIn (opt exponent) text (Piece.exponentExtent text) := by
  unfold Piece.exponentExtent
  split
  · rename_i c cs
    split
    · rename_i hc
      have h : LongestIn (opt exponent) (c :: cs) _ :=
        ((extent_signed cs).one_mul (c := c) (by simpa [isExponent] using hc)).opt
      revert h
      dsimp only
      split
      · exact fun h => h
      · rw [Option.map_some, Option.getD_some, Nat.add_assoc]
        exact fun h => h
    · rename_i hc
      refine Extent.opt (e := none) (extent_one_mul_none fun d ds h => ?_)
      cases h
      simpa [isExponent] using hc
  · exact Extent.opt (e := none) (extent_one_mul_none fun d ds h => by cases h)

theorem leaves_exponent : Leaves Char.isDigit (opt exponent) := by
  intro w hw
  rcases mem_opt.1 hw with rfl | hw
  · exact Or.inl rfl
  · obtain ⟨c, cs, rfl, hc, -⟩ := mem_one_mul.1 hw
    refine Or.inr ⟨c, cs, rfl, ?_⟩
    simp only [isExponent, Bool.or_eq_true, decide_eq_true_eq] at hc
    rcases hc with rfl | rfl <;> rfl

theorem leaves_fraction : Leaves Char.isDigit (opt fraction * opt exponent) := by
  intro w hw
  rcases mem_opt_mul.1 hw with hw | hw
  · exact leaves_exponent w hw
  · rw [fraction, mul_assoc] at hw
    obtain ⟨rest, -, rfl⟩ := mem_exactly_mul.1 hw
    exact Or.inr ⟨'.', rest, rfl, rfl⟩

/-- The fraction and the exponent of a number, each if it is there. -/
theorem longest_fraction (text : List Char) :
    LongestIn (opt fraction * opt exponent) text
      (Piece.fractionExtent text +
        Piece.exponentExtent (text.drop (Piece.fractionExtent text))) := by
  have hexponent := longest_exponent text
  unfold Piece.fractionExtent
  split
  · rename_i cs
    split
    · -- a point without digits after it is no fraction
      rename_i hd
      rw [List.drop_zero, Nat.zero_add]
      refine Extent.opt_mul (e := some _) hexponent ?_
      rw [fraction, mul_assoc]
      exact (extent_plus_one_none (List.length_eq_zero_iff.1 hd)).exactly_mul ['.']
    · rename_i hd
      have hrun : LongestIn (plus (one Char.isDigit) * opt exponent) cs
          (Piece.digitsExtent cs + Piece.exponentExtent (cs.drop (Piece.digitsExtent cs))) := by
        refine LongestIn.run_mul leaves_exponent ?_ fun h => hd (by
          rw [Piece.digitsExtent, h, List.length_nil])
        rw [Piece.digitsExtent, Token.drop_takeWhile_length]
        exact longest_exponent _
      have hpoint := Extent.exactly_mul (e := some _) hrun ['.']
      rw [← mul_assoc, ← fraction] at hpoint
      rw [Nat.add_comm 1, List.drop_succ_cons, Nat.add_right_comm, Nat.add_comm]
      refine Extent.mul_opt (e := some _) hpoint fun w hw hp => ⟨?_, by simp⟩
      -- no exponent starts with a point
      rcases mem_opt.1 hw with rfl | hw
      · rfl
      · exact absurd hp (extent_one_mul_none (p := isExponent)
          (fun c cs h => by cases h; rfl) w hw)
  · rename_i hpoint
    rw [List.drop_zero, Nat.zero_add]
    refine Extent.opt_mul (e := some _) hexponent ?_
    rw [fraction, mul_assoc]
    rintro w hw ⟨rest, rfl⟩
    obtain ⟨v, -, rfl⟩ := mem_exactly_mul.1 hw
    exact hpoint _ rfl

/-- The longest number that starts with a digit. -/
theorem longest_number (hc : c.isDigit = true) (cs : List Char) :
    LongestIn number (c :: cs) (Piece.numberExtent cs + 1) := by
  have htake : (c :: cs).takeWhile Char.isDigit = c :: cs.takeWhile Char.isDigit :=
    List.takeWhile_cons_of_pos hc
  have h : LongestIn number (c :: cs) _ := LongestIn.run_mul leaves_fraction (longest_fraction _)
    (by rw [htake]; exact List.cons_ne_nil _ _)
  rw [htake, List.dropWhile_cons_of_pos hc, ← Token.drop_takeWhile_length, List.drop_drop] at h
  rw [Piece.numberExtent, Piece.digitsExtent]
  simpa only [List.length_cons, Nat.add_assoc, Nat.add_comm, Nat.add_left_comm] using h

/-! ## Quoted texts -/

/-- A quoted text is closed or goes on with a plain character or an escape. -/
theorem mem_unquoted : w ∈ unquoted ↔ w = ['"'] ∨
    (∃ c cs, w = c :: cs ∧ isPlain c = true ∧ cs ∈ unquoted) ∨
    ∃ e cs, w = '\\' :: e :: cs ∧ e ≠ '\n' ∧ cs ∈ unquoted := by
  rw [unquoted, mem_kstar_mul, ← unquoted]
  constructor
  · rintro (h | ⟨a, ha, cs, hcs, rfl⟩)
    · exact Or.inl h
    · rcases (Language.mem_add _ _ _).1 ha with ⟨c, hc, rfl⟩ | ha
      · exact Or.inr (Or.inl ⟨c, cs, rfl, hc, hcs⟩)
      · obtain ⟨_, ⟨e, he, rfl⟩, rfl⟩ := mem_exactly_mul.1 ha
        exact Or.inr (Or.inr ⟨e, cs, rfl, by simpa using he, hcs⟩)
  · rintro (h | ⟨c, cs, rfl, hc, hcs⟩ | ⟨e, cs, rfl, he, hcs⟩)
    · exact Or.inl h
    · exact Or.inr ⟨[c], (Language.mem_add _ _ _).2 (Or.inl ⟨c, hc, rfl⟩), cs, hcs, rfl⟩
    · refine Or.inr ⟨['\\', e], (Language.mem_add _ _ _).2 (Or.inr ?_), cs, hcs, rfl⟩
      exact mem_exactly_mul.2 ⟨[e], ⟨e, by simpa using he, rfl⟩, rfl⟩

/-- What the text goes on with tells how a quoted text does. -/
theorem prefix_unquoted {cs : List Char} (hw : w ∈ unquoted) (h : w <+: c :: cs) :
    c = '"' ∧ w.length = 1 ∨
    isPlain c = true ∧ (∃ v ∈ unquoted, v <+: cs ∧ w.length = v.length + 1) ∨
    c = '\\' ∧ ∃ e rest, cs = e :: rest ∧ e ≠ '\n' ∧
      ∃ v ∈ unquoted, v <+: rest ∧ w.length = v.length + 2 := by
  rcases mem_unquoted.1 hw with rfl | ⟨d, ds, rfl, hd, hds⟩ | ⟨e, ds, rfl, he, hds⟩
  · exact Or.inl ⟨(List.cons_prefix_cons.1 h).1.symm, rfl⟩
  · obtain ⟨rfl, hrest⟩ := List.cons_prefix_cons.1 h
    exact Or.inr (Or.inl ⟨hd, ds, hds, hrest, rfl⟩)
  · obtain ⟨rfl, rest, rfl⟩ := List.cons_prefix_cons.1 h
    exact Or.inr (Or.inr ⟨rfl, e, ds ++ rest, rfl, he, ds, hds, List.prefix_append ds rest, rfl⟩)

/-- A quoted text ends at the first quote that is not escaped, if that is on its line. -/
theorem extent_unquoted (text : List Char) :
    Extent unquoted text (Piece.quotedExtent? text) := by
  fun_induction Piece.quotedExtent? text with
  | case1 =>
    intro w hw hp
    rw [List.prefix_nil.1 hp] at hw
    simpa using mem_unquoted.1 hw
  | case2 cs =>
    refine ⟨mem_unquoted.2 (Or.inl rfl), by simp, fun w hw hp => ?_⟩
    rcases prefix_unquoted hw hp with ⟨-, h⟩ | ⟨hc, -⟩ | ⟨hc, -⟩
    · omega
    · cases hc
    · cases hc
  | case3 cs =>
    intro w hw hp
    rcases prefix_unquoted hw hp with ⟨hc, -⟩ | ⟨hc, -⟩ | ⟨hc, -⟩ <;> cases hc
  | case4 =>
    intro w hw hp
    rcases prefix_unquoted hw hp with ⟨hc, -⟩ | ⟨hc, -⟩ | ⟨-, e, rest, h, -⟩
    · cases hc
    · cases hc
    · cases h
  | case5 cs =>
    intro w hw hp
    rcases prefix_unquoted hw hp with ⟨hc, -⟩ | ⟨hc, -⟩ | ⟨-, e, rest, h, he, -⟩
    · cases hc
    · cases hc
    · cases h
      exact he rfl
  | case6 e cs he _ _ ih =>
    refine ih.shift ['\\', e] (fun v hv => mem_unquoted.2 (Or.inr (Or.inr ⟨e, v, rfl, he, hv⟩)))
      fun w hw hp => ?_
    rcases prefix_unquoted hw hp with ⟨hc, -⟩ | ⟨hc, -⟩ | ⟨-, d, rest, h, -, hv⟩
    · cases hc
    · cases hc
    · cases h
      exact hv
  | case7 c cs hquote hfeed hslash ih =>
    have hplain : isPlain c = true := by simp [isPlain, hquote, hfeed, hslash]
    refine ih.shift [c] (fun v hv => mem_unquoted.2 (Or.inr (Or.inl ⟨c, v, rfl, hplain, hv⟩)))
      fun w hw hp => ?_
    rcases prefix_unquoted hw hp with ⟨hc, -⟩ | ⟨-, hv⟩ | ⟨hc, -⟩
    · exact absurd hc hquote
    · exact hv
    · exact absurd hc hslash

/-! ## Block comments -/

theorem closeExtent?_cons_of_ne (hc : c ≠ '*') (cs : List Char) :
    Piece.closeExtent? (c :: cs) = (Piece.closeExtent? cs).map (· + 1) := by
  rw [Piece.closeExtent?]
  exact fun _ h _ => hc h

theorem closeExtent?_star {cs : List Char} (hc : ∀ ds, cs ≠ '/' :: ds) :
    Piece.closeExtent? ('*' :: cs) = (Piece.closeExtent? cs).map (· + 1) := by
  rw [Piece.closeExtent?]
  exact fun ds _ h => hc ds h

/-- A run of stars closes a comment if a slash follows it. -/
theorem closeExtent?_stars {stars : List Char} (hne : stars ≠ [])
    (hstars : ∀ d ∈ stars, d = '*') (hc : c ≠ '*') (cs : List Char) :
    Piece.closeExtent? (stars ++ c :: cs) =
      if c = '/' then some (stars.length + 1)
      else (Piece.closeExtent? cs).map (· + (stars.length + 1)) := by
  induction stars with
  | nil => exact absurd rfl hne
  | cons d stars ih =>
    obtain rfl : d = '*' := hstars d (List.mem_cons_self ..)
    have hrest : ∀ d ∈ stars, d = '*' := fun d hd => hstars d (List.mem_cons_of_mem _ hd)
    cases stars with
    | nil =>
      by_cases hslash : c = '/'
      · subst hslash
        rfl
      · rw [List.cons_append, List.nil_append, closeExtent?_star fun ds h => hslash (by cases h; rfl),
          closeExtent?_cons_of_ne hc, if_neg hslash, Option.map_map]
        rfl
    | cons e stars =>
      obtain rfl : e = '*' := hrest e (List.mem_cons_self ..)
      rw [List.cons_append, closeExtent?_star (fun ds h => by cases h),
        ih (List.cons_ne_nil _ _) hrest]
      split
      · rfl
      · rw [Option.map_map]
        rfl

theorem closeExtent?_all_stars (hstars : ∀ d ∈ w, d = '*') : Piece.closeExtent? w = none := by
  induction w with
  | nil => rfl
  | cons d w ih =>
    obtain rfl : d = '*' := hstars d (List.mem_cons_self ..)
    have hrest : ∀ d ∈ w, d = '*' := fun d hd => hstars d (List.mem_cons_of_mem _ hd)
    rw [closeExtent?_star, ih hrest]
    · rfl
    · rintro ds rfl
      exact absurd (hrest '/' (List.mem_cons_self ..)) (by decide)

/-- What follows the end of a comment does not move it. -/
theorem closeExtent?_append (h : Piece.closeExtent? w = some n) (rest : List Char) :
    Piece.closeExtent? (w ++ rest) = some n := by
  fun_induction Piece.closeExtent? w generalizing n with
  | case1 => exact h
  | case2 c cs hc ih =>
    obtain ⟨k, hk, rfl⟩ := Option.map_eq_some_iff.1 h
    rw [List.cons_append, Piece.closeExtent?, ih hk]
    · rfl
    · intro ds hstar hslash
      cases cs with
      | nil => cases hk
      | cons d ds' =>
        cases hslash
        exact hc ds' hstar rfl
  | case3 => cases h

theorem closeExtent?_take (h : Piece.closeExtent? text = some n) :
    Piece.closeExtent? (text.take n) = some n ∧ n ≤ text.length := by
  fun_induction Piece.closeExtent? text generalizing n with
  | case1 cs =>
    cases h
    exact ⟨rfl, by simp⟩
  | case2 c cs hc ih =>
    obtain ⟨k, hk, rfl⟩ := Option.map_eq_some_iff.1 h
    obtain ⟨htake, hle⟩ := ih hk
    refine ⟨?_, Nat.add_le_add_right hle 1⟩
    rw [List.take_succ_cons, Piece.closeExtent?, htake]
    · rfl
    · intro ds hstar hslash
      cases cs with
      | nil => cases hk
      | cons d ds' =>
        cases k with
        | zero => cases hslash
        | succ k =>
          cases hslash
          exact hc ds' hstar rfl
  | case3 => cases h

theorem closeExtent?_of_mem (h : w ∈ commentRest) :
    Piece.closeExtent? w = some w.length := by
  obtain ⟨body, hbody, close, hclose, rfl⟩ := Language.mem_mul.1 h
  obtain ⟨pieces, rfl, hpieces⟩ := Language.mem_kstar.1 hbody
  clear h hbody
  induction pieces with
  | nil =>
    obtain ⟨stars, hstars, _, rfl, rfl⟩ := Language.mem_mul.1 hclose
    obtain ⟨hne, hall⟩ := mem_plus_one.1 hstars
    rw [List.flatten_nil, List.nil_append,
      closeExtent?_stars hne (fun d hd => by simpa using hall d hd) (by decide), if_pos rfl]
    simp
  | cons piece pieces ih =>
    have ih := ih fun v hv => hpieces v (List.mem_cons_of_mem _ hv)
    rw [List.flatten_cons, List.append_assoc]
    rcases (Language.mem_add _ _ _).1 (hpieces piece (List.mem_cons_self ..)) with
      ⟨c, hc, rfl⟩ | hpiece
    · rw [List.cons_append, closeExtent?_cons_of_ne (by simpa using hc), List.nil_append, ih]
      rfl
    · obtain ⟨stars, hstars, _, ⟨c, hc, rfl⟩, rfl⟩ := Language.mem_mul.1 hpiece
      obtain ⟨hne, hall⟩ := mem_plus_one.1 hstars
      have hc : c ≠ '*' ∧ c ≠ '/' := by simpa using hc
      rw [List.append_assoc, List.cons_append,
        closeExtent?_stars hne (fun d hd => by simpa using hall d hd) hc.1, if_neg hc.2,
        List.nil_append, ih]
      simp only [Option.map_some, List.length_append, List.length_cons]
      congr 1
      omega

/-- The stars at the start of a text, and what follows them. -/
theorem exists_stars (cs : List Char) : ∃ stars rest, '*' :: cs = stars ++ rest ∧ stars ≠ [] ∧
    (∀ d ∈ stars, d = '*') ∧ (rest = [] ∨ ∃ d ds, rest = d :: ds ∧ d ≠ '*') := by
  induction cs with
  | nil => exact ⟨['*'], [], rfl, List.cons_ne_nil _ _, by simp, Or.inl rfl⟩
  | cons c cs ih =>
    by_cases hc : c = '*'
    · obtain ⟨stars, rest, h, -, hall, hrest⟩ := ih
      refine ⟨'*' :: stars, rest, by rw [hc, h, List.cons_append], List.cons_ne_nil _ _, ?_, hrest⟩
      simpa using hall
    · exact ⟨['*'], c :: cs, rfl, List.cons_ne_nil _ _, by simp, Or.inr ⟨c, cs, rfl, hc⟩⟩

theorem mem_of_closeExtent? (h : Piece.closeExtent? w = some w.length) : w ∈ commentRest := by
  induction hlen : w.length using Nat.strong_induction_on generalizing w with
  | _ n ih =>
    subst hlen
    have hmem (v : List Char) (hv : v.length < w.length)
        (h : Piece.closeExtent? v = some v.length) : v ∈ commentRest := ih v.length hv h rfl
    rw [commentRest, mem_kstar_mul, ← commentRest]
    cases w with
    | nil => cases h
    | cons c cs =>
      by_cases hc : c = '*'
      · -- the stars are followed by the slash that closes or by another character
        obtain ⟨stars, rest, hsplit, hne, hall, hrest⟩ := exists_stars cs
        have hstars : stars ∈ plus (one (· = '*')) :=
          mem_plus_one.2 ⟨hne, fun d hd => by simpa using hall d hd⟩
        rw [hc, hsplit] at h hmem ⊢
        rcases hrest with rfl | ⟨d, ds, rfl, hd⟩
        · rw [List.append_nil, closeExtent?_all_stars hall] at h
          cases h
        · rw [closeExtent?_stars hne hall hd] at h
          split at h
          · rename_i hslash
            rw [List.length_append, List.length_cons] at h
            have hlast : ds = [] := by
              have := Option.some.inj h
              exact List.length_eq_zero_iff.1 (by omega)
            subst hlast hslash
            exact Or.inl (Language.append_mem_mul hstars rfl)
          · rename_i hslash
            obtain ⟨n, hn, hlen⟩ := Option.map_eq_some_iff.1 h
            rw [List.length_append, List.length_cons] at hlen
            obtain rfl : n = ds.length := by omega
            refine Or.inr ⟨stars ++ [d], ?_, ds, hmem ds ?_ hn, by simp⟩
            · refine (Language.mem_add _ _ _).2 (Or.inr ?_)
              exact Language.append_mem_mul hstars ⟨d, by simp [hd, hslash], rfl⟩
            · rw [List.length_append, List.length_cons]
              omega
      · rw [closeExtent?_cons_of_ne hc, List.length_cons] at h
        obtain ⟨n, hn, hlen⟩ := Option.map_eq_some_iff.1 h
        obtain rfl : n = cs.length := by omega
        refine Or.inr ⟨[c], ?_, cs, hmem cs (Nat.lt_succ_self _) hn, rfl⟩
        exact (Language.mem_add _ _ _).2 (Or.inl ⟨c, by simpa using hc, rfl⟩)

/-- The rest of a comment is a text that is closed at its end and not before. -/
theorem mem_commentRest : w ∈ commentRest ↔ Piece.closeExtent? w = some w.length :=
  ⟨closeExtent?_of_mem, mem_of_closeExtent?⟩

/-- A comment ends where it is closed first. -/
theorem extent_commentRest (text : List Char) :
    Extent commentRest text (Piece.closeExtent? text) := by
  have hclosed (w : List Char) (hw : w ∈ commentRest) (hp : w <+: text) :
      Piece.closeExtent? text = some w.length := by
    obtain ⟨rest, rfl⟩ := hp
    exact closeExtent?_append (mem_commentRest.1 hw) rest
  cases h : Piece.closeExtent? text with
  | none =>
    intro w hw hp
    rw [hclosed w hw hp] at h
    cases h
  | some n =>
    obtain ⟨htake, hle⟩ := closeExtent?_take h
    refine ⟨mem_commentRest.2 ?_, hle, fun w hw hp => ?_⟩
    · rw [htake, List.length_take_of_le hle]
    · rw [hclosed w hw hp] at h
      exact Nat.le_of_eq (Option.some.inj h)

end Pattern

end SmallJava
