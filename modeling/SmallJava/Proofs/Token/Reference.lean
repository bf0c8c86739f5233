/-
The reference reading of a source text: over and over, the longest piece that any rule matches is
taken off the text, a keyword being no name; comments, line breaks and blanks are left out. It ends
where no rule matches, at an unknown escape and at a number beyond all doubles. Main statement:
`Rule.Longest.unique`, there is one longest piece at most and one rule that matches it.
-/
import SmallJava.Proofs.Token.Longest
import SmallJava.Proofs.Token.Spelling

namespace SmallJava

open Computability

/-! ## The reference -/

namespace Rule

/-- The longest text that any rule matches at the start of `lexeme ++ rest` is `lexeme`, and the rule
matches it; if a keyword does, the rule is that keyword. -/
structure Longest (rule : Rule) (lexeme rest : List Char) : Prop where
  matched : lexeme ∈ rule.pattern
  nonempty : lexeme ≠ []
  longest : ∀ other : Rule, ∀ w ∈ other.pattern, w <+: lexeme ++ rest → w.length ≤ lexeme.length
  keyword : ∀ k, lexeme ∈ (Rule.keyword k).pattern → rule = .keyword k

/-- The letter after the backslash of an escape, and the character the escape stands for. -/
def escapes : List (Char × Char) :=
  [('n', '\n'), ('t', '\t'), ('r', '\r'), ('"', '"'), ('\\', '\\')]

/-- What is written between quotes, and the text it stands for. -/
inductive Denotes : List Char → List Char → Prop
  | nil : Denotes [] []
  | plain {c : Char} {cs text : List Char} : c ≠ '\\' → Denotes cs text →
      Denotes (c :: cs) (c :: text)
  | escape {e c : Char} {cs text : List Char} : (e, c) ∈ escapes → Denotes cs text →
      Denotes ('\\' :: e :: cs) (c :: text)

/-- What is written between quotes holds an escape that stands for nothing. -/
inductive HasUnknownEscape : List Char → Prop
  | here {e : Char} {cs : List Char} : (∀ c, (e, c) ∉ escapes) → HasUnknownEscape ('\\' :: e :: cs)
  | plain {c : Char} {cs : List Char} : c ≠ '\\' → HasUnknownEscape cs → HasUnknownEscape (c :: cs)
  | escape {e : Char} {cs : List Char} : HasUnknownEscape cs → HasUnknownEscape ('\\' :: e :: cs)

/-- The token a rule makes of what it matches. -/
inductive Writes : Rule → List Char → Token → Prop
  | number {lexeme : List Char} {x : Double} : Double.ofNumeral? false lexeme = some x →
      x.isFinite = true → Writes .number lexeme (.number x)
  | quoted {body text : List Char} : Denotes body text →
      Writes .quoted ('"' :: body ++ ['"']) (.text (.ofList text))
  | keyword {k : Keyword} {lexeme : List Char} : Writes (.keyword k) lexeme (.keyword k)
  | word {lexeme : List Char} : Writes .word lexeme (.name (.ofList lexeme))
  | symbol {s : Symbol} {lexeme : List Char} : Writes (.symbol s) lexeme (.symbol s)

/-- The rule makes no token of what it matches. -/
inductive Silent : Rule → Prop
  | lineComment : Silent .lineComment
  | blockComment : Silent .blockComment
  | lineBreak : Silent .lineBreak
  | blanks : Silent .blanks

end Rule

/-- What is wrong with a source text: something in it is no piece, or a number is too large. -/
inductive LexError.Cause
  | unrecognized | tooLarge
deriving DecidableEq

/-- What is wrong with a source text, and on which line. -/
def LexError.cause : LexError → Cause × Nat
  | unrecognized _ line => (.unrecognized, line)
  | tooLarge _ line => (.tooLarge, line)

/-- The rule matches something that stands for nothing. -/
inductive Rule.Refuses : Rule → List Char → LexError.Cause → Prop
  | number {lexeme : List Char} {x : Double} : Double.ofNumeral? false lexeme = some x →
      x.isFinite = false → Refuses .number lexeme .tooLarge
  | quoted {body : List Char} : HasUnknownEscape body →
      Refuses .quoted ('"' :: body ++ ['"']) .unrecognized

/-- What a text is read as whose first line has the given number. -/
inductive Reads : Nat → List Char → Except (LexError.Cause × Nat) (List Located) → Prop
  | done {line : Nat} : Reads line [] (.ok [])
  | skip {line : Nat} {rule : Rule} {lexeme rest : List Char}
      {result : Except (LexError.Cause × Nat) (List Located)} :
      rule.Longest lexeme rest → rule.Silent → Reads (line + lexeme.count '\n') rest result →
      Reads line (lexeme ++ rest) result
  | token {line : Nat} {rule : Rule} {lexeme rest : List Char} {t : Token}
      {result : Except (LexError.Cause × Nat) (List Located)} :
      rule.Longest lexeme rest → rule.Writes lexeme t →
      Reads (line + lexeme.count '\n') rest result →
      Reads line (lexeme ++ rest) (result.map (⟨t, line⟩ :: ·))
  | refused {line : Nat} {rule : Rule} {lexeme rest : List Char} {cause : LexError.Cause} :
      rule.Longest lexeme rest → rule.Refuses lexeme cause →
      Reads line (lexeme ++ rest) (.error (cause, line))
  | unmatched {line : Nat} {text : List Char} : text ≠ [] →
      (∀ rule : Rule, ∀ w ∈ rule.pattern, w <+: text → w = []) →
      Reads line text (.error (.unrecognized, line))

/-! ## How rules start -/

/-- What texts that a rule matches start with. -/
inductive Start
  | digit | letter | blank | quote | lineEnd
  | sign (s : Symbol)
deriving DecidableEq

/-- What a character can start. -/
def Start.ofChar? (c : Char) : Option Start :=
  if c.isDigit then some digit
  else if Piece.isNameStart c then some letter
  else if Piece.isBlank c then some blank
  else if c = '"' then some quote
  else if c = '\n' ∨ c = '\r' then some lineEnd
  else (Symbol.ofChar? c).map sign

namespace Rule

/-- What texts that the rule matches start with. -/
def start : Rule → Start
  | number => .digit
  | quoted => .quote
  | keyword _ => .letter
  | word => .letter
  | lineComment => .sign .slash
  | blockComment => .sign .slash
  | symbol s => .sign s
  | lineBreak => .lineEnd
  | blanks => .blank

theorem start_of_digit {c : Char} (h : c.isDigit = true) : Start.ofChar? c = some .digit := if_pos h

theorem start_of_letter {c : Char} (h : Piece.isNameStart c = true) :
    Start.ofChar? c = some .letter := by
  rw [Start.ofChar?, if_neg (by rw [Token.isDigit_of_isNameStart h]; decide), if_pos h]

theorem start_of_blank {c : Char} (h : Piece.isBlank c = true) : Start.ofChar? c = some .blank := by
  simp only [Piece.isBlank, Bool.or_eq_true, decide_eq_true_eq] at h
  rcases h with (rfl | rfl) | rfl <;> rfl

theorem start_of_symbol (s : Symbol) : Start.ofChar? s.char = some (.sign s) := by
  cases s <;> rfl

/-- What a rule matches is not empty, and its first character tells what it starts with. -/
theorem exists_start {rule : Rule} {w : List Char} (h : w ∈ rule.pattern) :
    ∃ c cs, w = c :: cs ∧ Start.ofChar? c = some rule.start := by
  cases rule with
  | number =>
    obtain ⟨ds, hds, rest, -, rfl⟩ := Language.mem_mul.1 h
    obtain ⟨hne, hall⟩ := Pattern.mem_plus_one.1 hds
    obtain ⟨d, ds, rfl⟩ := List.exists_cons_of_ne_nil hne
    exact ⟨d, ds ++ rest, rfl, start_of_digit (hall d (List.mem_cons_self ..))⟩
  | quoted =>
    obtain ⟨rest, -, rfl⟩ := Pattern.mem_exactly_mul.1 h
    exact ⟨'"', rest, rfl, rfl⟩
  | keyword k =>
    obtain ⟨c, cs, hk, hc, -⟩ := Token.spelling_letters k
    exact ⟨c, cs, (Pattern.mem_exactly.1 h).trans hk, start_of_letter hc⟩
  | word =>
    obtain ⟨c, cs, rfl, hc, -⟩ := Pattern.mem_one_mul.1 h
    exact ⟨c, cs, rfl, start_of_letter hc⟩
  | lineComment =>
    obtain ⟨rest, -, rfl⟩ := Pattern.mem_exactly_mul.1 h
    exact ⟨'/', '/' :: rest, rfl, rfl⟩
  | blockComment =>
    obtain ⟨rest, -, rfl⟩ := Pattern.mem_exactly_mul.1 h
    exact ⟨'/', '*' :: rest, rfl, rfl⟩
  | symbol s => exact ⟨s.char, [], Pattern.mem_exactly.1 h, start_of_symbol s⟩
  | lineBreak =>
    rcases Pattern.mem_opt_mul.1 h with h | h
    · exact ⟨'\n', [], Pattern.mem_exactly.1 h, rfl⟩
    · obtain ⟨rest, -, rfl⟩ := Pattern.mem_exactly_mul.1 h
      exact ⟨'\r', rest, rfl, rfl⟩
  | blanks =>
    obtain ⟨hne, hall⟩ := Pattern.mem_plus_one.1 h
    obtain ⟨c, cs, rfl⟩ := List.exists_cons_of_ne_nil hne
    exact ⟨c, cs, rfl, start_of_blank (hall c (List.mem_cons_self ..))⟩

theorem start_of_isPrefix {rule : Rule} {w cs : List Char} {c : Char} (h : w ∈ rule.pattern)
    (hp : w <+: c :: cs) : Start.ofChar? c = some rule.start := by
  obtain ⟨d, ds, rfl, hd⟩ := exists_start h
  rw [← (List.cons_prefix_cons.1 hp).1]
  exact hd

/-- Keywords are words. -/
theorem mem_word_of_keyword {k : Keyword} {w : List Char} (h : w ∈ (keyword k).pattern) :
    w ∈ word.pattern := by
  obtain ⟨c, cs, hk, hc, hcs⟩ := Token.spelling_letters k
  exact Pattern.mem_one_mul.2 ⟨c, cs, (Pattern.mem_exactly.1 h).trans hk, hc,
    Pattern.mem_one_kstar.2 hcs⟩

/-! ## The rules with one start -/

theorem of_start_digit {r : Rule} (h : r.start = .digit) : r = number := by
  cases r <;> cases h
  rfl

theorem of_start_quote {r : Rule} (h : r.start = .quote) : r = quoted := by
  cases r <;> cases h
  rfl

theorem of_start_blank {r : Rule} (h : r.start = .blank) : r = blanks := by
  cases r <;> cases h
  rfl

theorem of_start_lineEnd {r : Rule} (h : r.start = .lineEnd) : r = lineBreak := by
  cases r <;> cases h
  rfl

theorem of_start_letter {r : Rule} (h : r.start = .letter) : r = word ∨ ∃ k, r = keyword k := by
  cases r with
  | keyword k => exact Or.inr ⟨k, rfl⟩
  | word => exact Or.inl rfl
  | _ => cases h

theorem of_start_sign {r : Rule} {s : Symbol} (h : r.start = .sign s) :
    r = symbol s ∨ s = .slash ∧ (r = lineComment ∨ r = blockComment) := by
  cases r with
  | symbol t => cases h; exact Or.inl rfl
  | lineComment => cases h; exact Or.inr ⟨rfl, Or.inl rfl⟩
  | blockComment => cases h; exact Or.inr ⟨rfl, Or.inr rfl⟩
  | _ => cases h

/-! ## At most one rule -/

/-- What follows the first slash tells apart a slash and the two kinds of comments. -/
theorem eq_of_mem_slash {r₁ r₂ : Rule} {w : List Char} (h₁ : w ∈ r₁.pattern)
    (h₂ : w ∈ r₂.pattern) (hs₁ : r₁.start = .sign .slash) (hs₂ : r₂.start = .sign .slash) :
    r₁ = r₂ := by
  have hline (h : w ∈ lineComment.pattern) : w[1]? = some '/' := by
    obtain ⟨rest, -, rfl⟩ := Pattern.mem_exactly_mul.1 h
    rfl
  have hblock (h : w ∈ blockComment.pattern) : w[1]? = some '*' := by
    obtain ⟨rest, -, rfl⟩ := Pattern.mem_exactly_mul.1 h
    rfl
  have hsymbol (h : w ∈ (symbol .slash).pattern) : w[1]? = none := by
    rw [Pattern.mem_exactly.1 h]
    rfl
  rcases of_start_sign hs₁ with rfl | ⟨-, rfl | rfl⟩ <;>
    rcases of_start_sign hs₂ with rfl | ⟨-, rfl | rfl⟩ <;> simp_all

/-- No two rules match one text, but for a keyword and the words. -/
theorem eq_of_mem {r₁ r₂ : Rule} {w : List Char} (h₁ : w ∈ r₁.pattern) (h₂ : w ∈ r₂.pattern)
    (hk₁ : ∀ k, w ∈ (keyword k).pattern → r₁ = keyword k)
    (hk₂ : ∀ k, w ∈ (keyword k).pattern → r₂ = keyword k) : r₁ = r₂ := by
  obtain ⟨c, cs, rfl, hc⟩ := exists_start h₁
  have hstart : r₂.start = r₁.start :=
    Option.some.inj ((start_of_isPrefix h₂ List.prefix_rfl).symm.trans hc)
  cases hs : r₁.start with
  | digit => rw [of_start_digit hs, of_start_digit (hstart.trans hs)]
  | quote => rw [of_start_quote hs, of_start_quote (hstart.trans hs)]
  | blank => rw [of_start_blank hs, of_start_blank (hstart.trans hs)]
  | lineEnd => rw [of_start_lineEnd hs, of_start_lineEnd (hstart.trans hs)]
  | letter =>
    rcases of_start_letter hs with rfl | ⟨k, rfl⟩
    · rcases of_start_letter (hstart.trans hs) with rfl | ⟨k, rfl⟩
      · rfl
      · exact hk₁ k h₂
    · exact (hk₂ k h₁).symm
  | sign s =>
    by_cases hslash : s = .slash
    · subst hslash
      exact eq_of_mem_slash h₁ h₂ hs (hstart.trans hs)
    · rcases of_start_sign hs with rfl | ⟨h, -⟩
      · rcases of_start_sign (hstart.trans hs) with rfl | ⟨h, -⟩
        · rfl
        · exact absurd h hslash
      · exact absurd h hslash

/-- A text starts with one longest piece at most, and one rule matches it. -/
theorem Longest.unique {r₁ r₂ : Rule} {w₁ w₂ rest₁ rest₂ : List Char} (h₁ : r₁.Longest w₁ rest₁)
    (h₂ : r₂.Longest w₂ rest₂) (h : w₁ ++ rest₁ = w₂ ++ rest₂) :
    r₁ = r₂ ∧ w₁ = w₂ ∧ rest₁ = rest₂ := by
  have hle₁ := h₁.longest r₂ w₂ h₂.matched (h ▸ List.prefix_append w₂ rest₂)
  have hle₂ := h₂.longest r₁ w₁ h₁.matched (h ▸ List.prefix_append w₁ rest₁)
  obtain ⟨rfl, rfl⟩ := List.append_inj h (Nat.le_antisymm hle₂ hle₁)
  exact ⟨eq_of_mem h₁.matched h₂.matched h₁.keyword h₂.keyword, rfl, rfl⟩

end Rule

end SmallJava
