/-
The texts that are numbers: a sign, if there is one, and a decimal or one of two words, between white
space. A reader that takes more, words in any case among it, comes to the same behind a look at the
first character and at all of them. The numbers of source texts are among these texts, the comments
around them are not. Main statement: `ofText?_grammar`.
-/
import SmallJava.Proofs.Decimal.Numeral
import SmallJava.Proofs.Double.TextForm
import SmallJava.Proofs.Token.Positions

namespace SmallJava

open Computability Pattern Numeral

/-! ## Decimals by their characters -/

namespace Pattern

/-- A character that a decimal starts with. -/
def startsDecimal (c : Char) : Bool := c.isDigit || c = '.'

/-- A character of a decimal, that of a sign behind the letter of the exponent included. -/
def isDecimal (c : Char) : Bool := startsDecimal c || isExponent c || isSign c

variable {w : List Char} {c : Char}

theorem isDecimal_of_isDigit (h : c.isDigit = true) : isDecimal c = true := by
  simp [isDecimal, startsDecimal, h]

theorem decimal_head (h : w ∈ decimal) : ∃ c cs, w = c :: cs ∧ startsDecimal c = true := by
  obtain ⟨m, hm, e, -, rfl⟩ := Language.mem_mul.1 h
  obtain ⟨whole, hwhole, hm⟩ := mem_mantissa.1 hm
  cases whole with
  | nil =>
    rcases hm with ⟨hne, -⟩ | ⟨fraction, -, -, rfl⟩
    · exact absurd rfl hne
    · exact ⟨'.', _, rfl, rfl⟩
  | cons c cs =>
    have hc : startsDecimal c = true := by simp [startsDecimal, hwhole c List.mem_cons_self]
    rcases hm with ⟨-, rfl⟩ | ⟨fraction, -, -, rfl⟩
    · exact ⟨c, _, rfl, hc⟩
    · exact ⟨c, _, rfl, hc⟩

theorem isDecimal_of_mem (h : w ∈ decimal) : ∀ c ∈ w, isDecimal c = true := by
  have hdigits {ds : List Char} (h : ∀ c ∈ ds, c.isDigit = true) : ∀ c ∈ ds, isDecimal c = true :=
    fun c hc => isDecimal_of_isDigit (h c hc)
  have hsigned {ds : List Char} (h : ds ∈ opt (one isSign) * plus (one Char.isDigit)) :
      ∀ c ∈ ds, isDecimal c = true := by
    rcases mem_opt_mul.1 h with h | h
    · exact hdigits (mem_plus_one.1 h).2
    · obtain ⟨s, ds, rfl, hs, hds⟩ := mem_one_mul.1 h
      exact List.forall_mem_cons.2 ⟨by simp [isDecimal, hs], hdigits (mem_plus_one.1 hds).2⟩
  have hexponent {e : List Char} (h : e ∈ opt exponent) : ∀ c ∈ e, isDecimal c = true := by
    rcases mem_opt.1 h with rfl | h
    · exact List.forall_mem_nil _
    · obtain ⟨x, ds, rfl, hx, hds⟩ := mem_one_mul.1 h
      exact List.forall_mem_cons.2 ⟨by simp [isDecimal, hx], hsigned hds⟩
  obtain ⟨m, hm, e, he, rfl⟩ := Language.mem_mul.1 h
  obtain ⟨whole, hwhole, ⟨-, rfl⟩ | ⟨fraction, hfraction, -, rfl⟩⟩ := mem_mantissa.1 hm
  · exact List.forall_mem_append.2 ⟨hdigits hwhole, hexponent he⟩
  · refine List.forall_mem_append.2 ⟨List.forall_mem_append.2 ⟨hdigits hwhole, ?_⟩, hexponent he⟩
    exact List.forall_mem_cons.2 ⟨rfl, hdigits hfraction⟩

/-- A number without a sign: `Infinity|NaN|decimal`. -/
def unsigned : Language Char := exactly "Infinity".toList + (exactly "NaN".toList + decimal)

/-- A number: `[+-]?(Infinity|NaN|decimal)`. -/
def readable : Language Char := opt (one isSign) * unsigned

theorem mem_unsigned : w ∈ unsigned ↔ w = "Infinity".toList ∨ w = "NaN".toList ∨ w ∈ decimal := by
  rw [unsigned, Language.mem_add, Language.mem_add, mem_exactly, mem_exactly]

theorem isSign_of_startsDecimal (h : startsDecimal c = true) : isSign c = false := by
  simp only [startsDecimal, Bool.or_eq_true, decide_eq_true_eq] at h
  rcases h with h | rfl
  · exact isSign_of_isDigit h
  · rfl

theorem leaves_unsigned : Leaves isSign unsigned := by
  intro w hw
  rcases mem_unsigned.1 hw with rfl | rfl | hw
  · exact Or.inr ⟨'I', "nfinity".toList, by simp, rfl⟩
  · exact Or.inr ⟨'N', "aN".toList, by simp, rfl⟩
  · obtain ⟨c, cs, rfl, hc⟩ := decimal_head hw
    exact Or.inr ⟨c, cs, rfl, isSign_of_startsDecimal hc⟩

end Pattern

namespace Double

variable {text other core word sign rest : List Char} {c s : Char} {x : Double}

/-! ## What is read -/

theorem isSome_ofText?_iff : (ofText? text).isSome ↔ Text.trim text ∈ readable := by
  rw [readable, mem_opt_sign_mul leaves_unsigned, mem_unsigned, ← isSome_decimal?]
  unfold ofText?
  dsimp only
  split
  · simp_all
  · split
    · simp_all
    · simp_all [ofNumeral?]

/-- A text is read if it is a number between white space. -/
theorem isSome_ofText? : (ofText? text).isSome ↔ ∃ core ∈ readable, Text.Trims text core := by
  rw [isSome_ofText?_iff]
  constructor
  · exact fun h => ⟨_, h, Text.trims_trim text⟩
  · rintro ⟨core, hcore, htext⟩
    rwa [htext.trim_eq]

theorem ofText?_eq_none (h : Text.Trims text core) (hcore : core ∉ readable) :
    ofText? text = none := by
  rw [← Option.not_isSome_iff_eq_none, isSome_ofText?_iff, h.trim_eq]
  exact hcore

theorem not_mem_readable_of_signs (hs : isSign s = true) (hc : isSign c = true)
    (rest : List Char) : s :: c :: rest ∉ readable := by
  rw [readable, mem_opt_sign_mul leaves_unsigned, splitSign_cons hs]
  intro h
  rcases leaves_unsigned _ h with h | ⟨d, ds, h, hd⟩
  · cases h
  · cases h
    rw [hc] at hd
    cases hd

/-! ## A guarded reader -/

/-- The text is the word, given in small letters, in any case. -/
def InAnyCase (cs : List Char) (word : String) : Prop := cs.map Char.toLower = word.toList

instance (cs : List Char) (word : String) : Decidable (InAnyCase cs word) :=
  inferInstanceAs (Decidable (_ = _))

/-- The words that a machine takes for numbers. -/
def MachineWord (cs : List Char) : Prop :=
  InAnyCase cs "inf" ∨ InAnyCase cs "infinity" ∨ InAnyCase cs "nan"

/-- Reads what a machine takes for a number: an optional sign, and a numeral or one of three words
in any case. -/
def machine? (cs : List Char) : Option Double :=
  let (negative, cs) := splitSign cs
  if InAnyCase cs "inf" ∨ InAnyCase cs "infinity" then some (.infinite negative)
  else if InAnyCase cs "nan" then some .nan
  else ofNumeral? negative cs

/-- Reads the two words by itself, and leaves to the machine what starts like a decimal and has no
other characters than decimals have. -/
def guarded? (text : List Char) : Option Double :=
  let trimmed := Text.trim text
  let (negative, cs) := splitSign trimmed
  if cs = "Infinity".toList then some (.infinite negative)
  else if cs = "NaN".toList then some .nan
  else if cs.head?.any startsDecimal && cs.all isDecimal then machine? trimmed
  else none

theorem toLower_of_startsDecimal (h : startsDecimal c = true) : c.toLower = c := by
  have hc : c.toNat ≤ 57 := by
    simp only [startsDecimal, Char.isDigit, Bool.or_eq_true, Bool.and_eq_true,
      decide_eq_true_eq] at h
    rcases h with h | rfl
    · exact UInt32.le_iff_toNat_le.1 h.2
    · decide
  -- digits and the point come before the capitals
  unfold Char.toLower
  rw [dif_neg]
  rintro ⟨hlow, -⟩
  have hcapital : 65 ≤ c.toNat := UInt32.le_iff_toNat_le.1 hlow
  omega

/-- A word of the machine starts with a letter. -/
theorem MachineWord.head (h : MachineWord word) :
    ∃ c rest, word = c :: rest ∧ isSign c = false ∧ startsDecimal c = false := by
  obtain ⟨c, rest, rfl, hletter⟩ : ∃ c rest, word = c :: rest ∧
      (c.toLower = 'i' ∨ c.toLower = 'n') := by
    cases word with
    | nil => rcases h with h | h | h <;> simp [InAnyCase] at h
    | cons c rest =>
      refine ⟨c, rest, rfl, ?_⟩
      rcases h with h | h | h
      · exact Or.inl (by simpa [InAnyCase] using congrArg List.head? h)
      · exact Or.inl (by simpa [InAnyCase] using congrArg List.head? h)
      · exact Or.inr (by simpa [InAnyCase] using congrArg List.head? h)
  refine ⟨c, rest, rfl, ?_, ?_⟩
  · rw [Bool.eq_false_iff]
    intro hs
    simp only [isSign, Bool.or_eq_true, decide_eq_true_eq] at hs
    rcases hs with rfl | rfl <;> revert hletter <;> decide
  · rw [Bool.eq_false_iff]
    intro hs
    rw [toLower_of_startsDecimal hs] at hletter
    rcases hletter with rfl | rfl <;> cases hs

theorem ofNumeral?_eq_none {negative : Bool} {cs : List Char}
    (h : ¬ (cs.head?.any startsDecimal && cs.all isDecimal) = true) :
    ofNumeral? negative cs = none := by
  rw [ofNumeral?, Option.map_eq_none_iff, ← Option.not_isSome_iff_eq_none, isSome_decimal?]
  intro hdecimal
  obtain ⟨c, rest, rfl, hc⟩ := decimal_head hdecimal
  refine h ?_
  rw [List.head?_cons, Option.any_some, hc, Bool.true_and, List.all_eq_true]
  exact isDecimal_of_mem hdecimal

/-- The guard lets the machine read what is a number, and nothing else. -/
theorem guarded?_eq (text : List Char) : guarded? text = ofText? text := by
  unfold guarded? ofText?
  dsimp only
  rcases hsign : splitSign (Text.trim text) with ⟨negative, cs⟩
  dsimp only
  split
  · rfl
  · split
    · rfl
    · split
      · -- the machine has words of its own, but none of them gets here
        rename_i hguard
        have hword : ¬ MachineWord cs := by
          intro hword
          obtain ⟨c, rest, rfl, -, hc⟩ := hword.head
          simp [hc] at hguard
        rw [MachineWord, not_or, not_or] at hword
        simp [machine?, hsign, hword]
      · -- what is stopped is no decimal
        rename_i hguard
        exact (ofNumeral?_eq_none hguard).symm

/-- The machine's words are read in one case only. -/
theorem not_mem_readable_of_word (hsign : sign ∈ opt (one isSign)) (hword : MachineWord word)
    (hinfinity : word ≠ "Infinity".toList) (hnan : word ≠ "NaN".toList) :
    sign ++ word ∉ readable := by
  obtain ⟨c, rest, rfl, hc, hd⟩ := hword.head
  have hsplit : (splitSign (sign ++ c :: rest)).2 = c :: rest := by
    rcases mem_opt.1 hsign with rfl | ⟨s, hs, rfl⟩
    · rw [List.nil_append, splitSign_eq_self (by simpa using hc)]
    · rw [List.singleton_append, splitSign_cons hs]
  rw [readable, mem_opt_sign_mul leaves_unsigned, hsplit, mem_unsigned]
  rintro (h | h | h)
  · exact hinfinity h
  · exact hnan h
  · obtain ⟨d, ds, h, hstart⟩ := decimal_head h
    cases h
    rw [hd] at hstart
    cases hstart

/-! ## Numbers of a source text -/

theorem not_blank_of_number {w : List Char} (h : w ∈ number) :
    ∀ c ∈ w, Text.isBlank c = false := by
  intro c hc
  have hdecimal := isDecimal_of_mem (mem_decimal_of_number h) c hc
  simp only [isDecimal, startsDecimal, isExponent, isSign, Bool.or_eq_true,
    decide_eq_true_eq] at hdecimal
  rcases hdecimal with ((hdigit | rfl) | rfl | rfl) | rfl | rfl
  · exact Text.isBlank_of_isDigit hdigit
  all_goals rfl

/-- A number of a source text is read as what it is there. -/
theorem ofText?_of_number {w : List Char} (hw : w ∈ number) (h : ofNumeral? false w = some x)
    (htext : Text.Trims text w) : ofText? text = some x := by
  have hblank := not_blank_of_number hw
  obtain ⟨whole, hwhole, rest, -, rfl⟩ := Language.mem_mul.1 hw
  obtain ⟨hne, hall⟩ := mem_plus_one.1 hwhole
  obtain ⟨c, cs, rfl⟩ := List.exists_cons_of_ne_nil hne
  have htrim : ofText? text = ofText? (c :: cs ++ rest) := by
    unfold ofText?
    rw [htext.trim_eq, Text.trim_eq_self hblank]
  rw [htrim, ← h]
  exact (ofText?_of_digit (hall c List.mem_cons_self) hblank).1

end Double

namespace Part

variable {source : List Char} {ps before after : List Part} {p : Part} {x : Double}

theorem Written.number (h : p.Written) (hmatched : p.lexeme ∈ p.rule.pattern)
    (hp : p.token? = some (.number x)) :
    p.lexeme ∈ Pattern.number ∧ Double.ofNumeral? false p.lexeme = some x := by
  obtain ⟨rule, lexeme, token?⟩ := p
  dsimp only at *
  subst hp
  unfold Written at h
  dsimp only at h
  cases h with
  | number hvalue _ => exact ⟨hmatched, hvalue⟩

/-- What has no token and no slash is white space. -/
theorem Written.blank (h : p.Written) (hmatched : p.lexeme ∈ p.rule.pattern)
    (hp : p.token? = none) (hslash : '/' ∉ p.lexeme) : ∀ c ∈ p.lexeme, Text.isBlank c = true := by
  obtain ⟨rule, lexeme, token?⟩ := p
  dsimp only at *
  subst hp
  unfold Written at h
  dsimp only at h
  cases h with
  | lineComment =>
    obtain ⟨v, -, rfl⟩ := mem_exactly_mul.1 hmatched
    exact absurd List.mem_cons_self hslash
  | blockComment =>
    obtain ⟨v, -, rfl⟩ := mem_exactly_mul.1 hmatched
    exact absurd List.mem_cons_self hslash
  | lineBreak =>
    rcases Rule.mem_lineBreak.1 hmatched with rfl | rfl
    · exact List.forall_mem_singleton.2 rfl
    · exact List.forall_mem_cons.2 ⟨rfl, List.forall_mem_singleton.2 rfl⟩
  | blanks =>
    intro c hc
    have hblank := (mem_plus_one.1 hmatched).2 c hc
    simp only [Piece.isBlank, Bool.or_eq_true, decide_eq_true_eq] at hblank
    rcases hblank with (rfl | rfl) | rfl <;> rfl

theorem mem_text {c : Char} : c ∈ text ps ↔ ∃ q ∈ ps, c ∈ q.lexeme := by
  simp [text]

/-- A number alone in a text without comments stands between white space. -/
theorem Cut.trims (h : Cut source (before ++ p :: after) []) (hp : p.token? = some (.number x))
    (hsilent : ∀ q ∈ before ++ after, q.token? = none) (hslash : '/' ∉ source) :
    Text.Trims source p.lexeme := by
  have hsource : source = text before ++ p.lexeme ++ text after := by
    rw [h.text_append]
    simp [text]
  have hpart (q : Part) (hq : q ∈ before ++ after) : ∀ c ∈ q.lexeme, Text.isBlank c = true := by
    have hmem : q ∈ before ++ p :: after := by
      rcases List.mem_append.1 hq with hq | hq <;> simp [hq]
    obtain ⟨hmatched, hwritten⟩ := h.part q hmem
    refine hwritten.blank hmatched (hsilent q hq) fun hc => hslash ?_
    rw [h.text_append, List.append_nil]
    exact mem_text.2 ⟨q, hmem, hc⟩
  -- the number itself has no white space, so it is what trimming leaves
  obtain ⟨hmatched, hwritten⟩ := h.part p (by simp)
  have hblank := Double.not_blank_of_number (hwritten.number hmatched hp).1
  refine ⟨⟨text before, text after, fun c hc => ?_, fun c hc => ?_, hsource⟩,
    fun c hc => hblank c (List.mem_of_mem_head? hc), fun c hc => hblank c (List.mem_of_getLast? hc)⟩
  · obtain ⟨q, hq, hc⟩ := mem_text.1 hc
    exact hpart q (List.mem_append_left _ hq) c hc
  · obtain ⟨q, hq, hc⟩ := mem_text.1 hc
    exact hpart q (List.mem_append_right _ hq) c hc

/-- One token of a text is written in one part, and the other parts have none. -/
theorem exists_of_tokens_singleton {t : Token} (h : tokens ps = [t]) : ∃ before p after,
    ps = before ++ p :: after ∧ p.token? = some t ∧ ∀ q ∈ before ++ after, q.token? = none := by
  obtain ⟨before, p, after, rfl, hbefore, hp, hafter⟩ := List.filterMap_eq_cons_iff.1 h
  refine ⟨before, p, after, rfl, hp, fun q hq => ?_⟩
  rcases List.mem_append.1 hq with hq | hq
  · exact hbefore q hq
  · exact List.filterMap_eq_nil_iff.1 hafter q hq

end Part

/-! ## The texts of numbers -/

namespace Double

/-- Every number of a source text is read from what is written there. -/
theorem ofText?_of_tokenize {source : String} {toks : List Located}
    (h : Token.tokenize source = .ok toks) : ∃ ps, Part.Cut source.toList ps [] ∧
      toks = Part.counted 1 ps ∧
      ∀ p ∈ ps, ∀ x, p.token? = some (.number x) → ofText? p.lexeme = some x := by
  obtain ⟨ps, rest, hcut, hfinishes⟩ := Token.scan_cut 1 source.toList
  rw [← Token.tokenize, h] at hfinishes
  obtain ⟨rfl, rfl⟩ := hfinishes
  refine ⟨ps, hcut, rfl, fun p hp x hx => ?_⟩
  obtain ⟨hmatched, hwritten⟩ := hcut.part p hp
  obtain ⟨hnumber, hvalue⟩ := hwritten.number hmatched hx
  refine ofText?_of_number hnumber hvalue (Text.trims_iff.2 (Text.trim_eq_self ?_))
  exact not_blank_of_number hnumber

/-- A source text that is one number, without comments, is read as that number. -/
theorem ofText?_of_tokenize_singleton {source : String} {x : Double} {line : Nat}
    (h : Token.tokenize source = .ok [⟨.number x, line⟩]) (hslash : '/' ∉ source.toList) :
    ofText? source.toList = some x := by
  obtain ⟨ps, hcut, htoks, -⟩ := ofText?_of_tokenize h
  have htokens : Part.tokens ps = [.number x] := by
    rw [← Part.counted_tokens 1 ps, ← htoks]
    rfl
  obtain ⟨before, p, after, rfl, hp, hsilent⟩ := Part.exists_of_tokens_singleton htokens
  obtain ⟨hmatched, hwritten⟩ := hcut.part p (by simp)
  obtain ⟨hnumber, hvalue⟩ := hwritten.number hmatched hp
  exact ofText?_of_number hnumber hvalue (hcut.trims hp hsilent hslash)

/-- A text is read as a number exactly if it is one: an optional sign and one of two words or a
decimal, between white space. So the words are read in no other case, and no second sign is passed
over, though a machine's reader takes the words in any case; with a guard before it, that reader
gives the same. What a number token of a source text was read from is read as the number of the
token. Comments around it are no part of that: the whole source text of a single number token is
read as its number if it has no comments, as is sure without a slash, but `1//` is not. -/
theorem ofText?_grammar :
    (∀ text, (ofText? text).isSome ↔ ∃ core ∈ Pattern.readable, Text.Trims text core) ∧
    (∀ text sign word, sign ∈ opt (one isSign) → MachineWord word → word ≠ "Infinity".toList →
      word ≠ "NaN".toList → Text.Trims text (sign ++ word) → ofText? text = none) ∧
    (∀ text s c rest, isSign s = true → isSign c = true → Text.Trims text (s :: c :: rest) →
      ofText? text = none) ∧
    (∀ text, ofText? text = guarded? text) ∧
    (∀ source toks, Token.tokenize source = .ok toks → ∃ ps, Part.Cut source.toList ps [] ∧
      toks = Part.counted 1 ps ∧
      ∀ p ∈ ps, ∀ x, p.token? = some (.number x) → ofText? p.lexeme = some x) ∧
    ∀ source x line, Token.tokenize source = .ok [⟨.number x, line⟩] → '/' ∉ source.toList →
      ofText? source.toList = some x := by
  refine ⟨fun text => isSome_ofText?, ?_, ?_, fun text => (guarded?_eq text).symm,
    fun source toks => ofText?_of_tokenize, fun source x line => ofText?_of_tokenize_singleton⟩
  · intro text sign word hsign hword hinfinity hnan htext
    exact ofText?_eq_none htext (not_mem_readable_of_word hsign hword hinfinity hnan)
  · intro text s c rest hs hc htext
    exact ofText?_eq_none htext (not_mem_readable_of_signs hs hc rest)

/-- Points may lead or end a decimal; a word in small letters and a second sign are refused. -/
theorem ofText?_grammar_spellings :
    (ofText? " -.5e+3\n".toList).isSome ∧ (ofText? "1.".toList).isSome ∧
      ofText? "-inf".toList = none ∧ ofText? "+-1".toList = none ∧
      Token.tokenize " 2.5e1\n" = .ok [⟨.number (.ofInt 25), 1⟩] ∧
      ofText? " 2.5e1\n".toList = some (.ofInt 25) := by
  obtain ⟨hread, hwords, hsigns, -, -, hsource⟩ := ofText?_grammar
  have hdecimal {cs : List Char} (h : (decimal? (splitSign cs).2).isSome) : cs ∈ readable :=
    (mem_opt_sign_mul leaves_unsigned).2 (mem_unsigned.2 (Or.inr (Or.inr (isSome_decimal?.1 h))))
  have hleading : "-.5e+3".toList ∈ readable := hdecimal (by decide +kernel)
  have hending : "1.".toList ∈ readable := hdecimal (by decide +kernel)
  have htokens : Token.tokenize " 2.5e1\n" = .ok [⟨.number (.ofInt 25), 1⟩] := by decide +kernel
  refine ⟨(hread _).2 ⟨_, hleading, Text.trims_iff.2 (by decide +kernel)⟩,
    (hread _).2 ⟨_, hending, Text.trims_iff.2 (by decide +kernel)⟩,
    hwords _ ['-'] "inf".toList (mem_opt.2 (Or.inr ⟨'-', rfl, rfl⟩)) (Or.inl (by decide +kernel))
      (by decide) (by decide) (Text.trims_iff.2 (by decide +kernel)),
    hsigns _ '+' '-' ['1'] rfl rfl (Text.trims_iff.2 (by decide +kernel)), htokens,
    hsource _ _ 1 htokens (by decide)⟩

/-- A source text with a comment behind its only token, a number, is no text of a number. -/
theorem ofText?_comment_behind_number :
    Token.tokenize "1//" = .ok [⟨.number (.ofInt 1), 1⟩] ∧ ofText? "1//".toList = none ∧
      ¬ ∀ source x line, Token.tokenize source = .ok [⟨.number x, line⟩] →
        ofText? source.toList = some x := by
  have htokens : Token.tokenize "1//" = .ok [⟨.number (.ofInt 1), 1⟩] := by decide +kernel
  have hrefused : ofText? "1//".toList = none := by decide +kernel
  refine ⟨htokens, hrefused, fun h => ?_⟩
  rw [h "1//" _ 1 htokens] at hrefused
  cases hrefused

end Double

end SmallJava
