/-
The patterns of the language, one for each rule of its vocabulary, as sets of texts put together from
character classes by concatenation, choice and repetition; and what the words of such sets look like.
-/
import SmallJava.Token.Piece
import Mathlib.Computability.Language
import Mathlib.Data.List.TakeWhile
import Mathlib.Tactic.Common

namespace SmallJava

open Computability

/-! ## Patterns -/

namespace Pattern

/-- One character of a class. -/
def one (p : Char → Bool) : Language Char := {w | ∃ c, p c = true ∧ w = [c]}

/-- A fixed text. -/
def exactly (text : List Char) : Language Char := {text}

/-- One or more in a row. -/
def plus (l : Language Char) : Language Char := l * l∗

/-- At most one. -/
def opt (l : Language Char) : Language Char := 1 + l

/-- The letter of an exponent. -/
def isExponent (c : Char) : Bool := c = 'e' || c = 'E'

/-- A sign. -/
def isSign (c : Char) : Bool := c = '+' || c = '-'

/-- A fraction: `\.[0-9]+`. -/
def fraction : Language Char := exactly ['.'] * plus (one Char.isDigit)

/-- An exponent: `[eE][+-]?[0-9]+`. -/
def exponent : Language Char := one isExponent * (opt (one isSign) * plus (one Char.isDigit))

/-- A number: `[0-9]+(\.[0-9]+)?([eE][+-]?[0-9]+)?`. -/
def number : Language Char := plus (one Char.isDigit) * (opt fraction * opt exponent)

/-- A character of a quoted text that stands for itself: `[^"\\\n]`. -/
def isPlain (c : Char) : Bool := c != '"' && c != '\\' && c != '\n'

/-- A quoted text after its opening: `([^"\\\n]|\\.)*"`. -/
def unquoted : Language Char :=
  (one isPlain + exactly ['\\'] * one (· != '\n'))∗ * exactly ['"']

/-- A quoted text: `"([^"\\\n]|\\.)*"`. -/
def quoted : Language Char := exactly ['"'] * unquoted

/-- A word: `[a-zA-Z_$][a-zA-Z0-9_$]*`. -/
def word : Language Char := one Piece.isNameStart * (one Piece.isNameRest)∗

/-- Blanks: `[ \t\f]+`. -/
def blanks : Language Char := plus (one Piece.isBlank)

/-- A line break: `\r?\n`. -/
def lineBreak : Language Char := opt (exactly ['\r']) * exactly ['\n']

/-- A line comment: `//[^\n\r]*`. -/
def lineComment : Language Char := exactly ['/', '/'] * (one fun c => c != '\n' && c != '\r')∗

/-- A block comment after its opening: `([^*]|\*+[^*/])*\*+/`. -/
def commentRest : Language Char :=
  (one (· != '*') + plus (one (· = '*')) * one fun c => c != '*' && c != '/')∗ *
    (plus (one (· = '*')) * exactly ['/'])

/-- A block comment: `/\*([^*]|\*+[^*/])*\*+/`. -/
def blockComment : Language Char := exactly ['/', '*'] * commentRest

end Pattern

/-- The rules of the vocabulary, each with a pattern. -/
inductive Rule
  | number | quoted
  | keyword (word : Keyword)
  | word
  | lineComment | blockComment
  | symbol (sign : Symbol)
  | lineBreak | blanks
deriving DecidableEq

/-- The pattern of a rule. -/
def Rule.pattern : Rule → Language Char
  | number => Pattern.number
  | quoted => Pattern.quoted
  | keyword k => Pattern.exactly k.spelling.toList
  | word => Pattern.word
  | lineComment => Pattern.lineComment
  | blockComment => Pattern.blockComment
  | symbol s => Pattern.exactly [s.char]
  | lineBreak => Pattern.lineBreak
  | blanks => Pattern.blanks

/-! ## Words of patterns -/

namespace Pattern

variable {p : Char → Bool} {l m : Language Char} {w : List Char} {c : Char}

@[simp] theorem mem_one : w ∈ one p ↔ ∃ c, p c = true ∧ w = [c] := Iff.rfl

@[simp] theorem mem_exactly {text : List Char} : w ∈ exactly text ↔ w = text := Iff.rfl

@[simp] theorem mem_opt : w ∈ opt l ↔ w = [] ∨ w ∈ l := Language.mem_add 1 l w

/-- A repetition stops or goes on. -/
theorem mem_kstar_mul : w ∈ l∗ * m ↔ w ∈ m ∨ ∃ a ∈ l, ∃ b ∈ l∗ * m, a ++ b = w := by
  have h : l∗ * m = m + l * (l∗ * m) := by
    conv_lhs => rw [← Language.one_add_self_mul_kstar_eq_kstar]
    rw [add_mul, one_mul, mul_assoc]
  rw [h, Language.mem_add, Language.mem_mul, ← h]

theorem mem_one_kstar : w ∈ (one p)∗ ↔ ∀ c ∈ w, p c = true := by
  constructor
  · intro h c hc
    obtain ⟨pieces, rfl, hpieces⟩ := Language.mem_kstar.1 h
    obtain ⟨piece, hp, hc⟩ := List.mem_flatten.1 hc
    obtain ⟨d, hd, rfl⟩ := hpieces piece hp
    rwa [List.mem_singleton.1 hc]
  · intro h
    refine Language.mem_kstar.2 ⟨w.map ([·]), ?_, fun piece hp => ?_⟩
    · induction w with
      | nil => rfl
      | cons c cs ih =>
        rw [List.map_cons, List.flatten_cons, ← ih fun d hd => h d (List.mem_cons_of_mem _ hd)]
        rfl
    · obtain ⟨c, hc, rfl⟩ := List.mem_map.1 hp
      exact ⟨c, h c hc, rfl⟩

theorem mem_plus_one : w ∈ plus (one p) ↔ w ≠ [] ∧ ∀ c ∈ w, p c = true := by
  constructor
  · intro h
    obtain ⟨_, ⟨c, hc, rfl⟩, rest, hrest, rfl⟩ := Language.mem_mul.1 h
    rw [mem_one_kstar] at hrest
    refine ⟨List.cons_ne_nil _ _, fun d hd => ?_⟩
    rcases List.mem_cons.1 hd with rfl | hd
    · exact hc
    · exact hrest d hd
  · rintro ⟨hne, h⟩
    cases w with
    | nil => exact absurd rfl hne
    | cons c cs =>
      exact Language.append_mem_mul (a := [c]) ⟨c, h c (List.mem_cons_self ..), rfl⟩
        (mem_one_kstar.2 fun d hd => h d (List.mem_cons_of_mem _ hd))

theorem mem_one_mul : w ∈ one p * l ↔ ∃ c cs, w = c :: cs ∧ p c = true ∧ cs ∈ l := by
  constructor
  · intro h
    obtain ⟨_, ⟨c, hc, rfl⟩, rest, hrest, rfl⟩ := Language.mem_mul.1 h
    exact ⟨c, rest, rfl, hc, hrest⟩
  · rintro ⟨c, cs, rfl, hc, hcs⟩
    exact Language.append_mem_mul (a := [c]) ⟨c, hc, rfl⟩ hcs

theorem mem_exactly_mul {text : List Char} :
    w ∈ exactly text * l ↔ ∃ rest ∈ l, w = text ++ rest := by
  constructor
  · intro h
    obtain ⟨_, rfl, rest, hrest, rfl⟩ := Language.mem_mul.1 h
    exact ⟨rest, hrest, rfl⟩
  · rintro ⟨rest, hrest, rfl⟩
    exact Language.append_mem_mul rfl hrest

theorem mem_opt_mul : w ∈ opt l * m ↔ w ∈ m ∨ w ∈ l * m := by
  rw [opt, add_mul, one_mul, Language.mem_add]

end Pattern

end SmallJava
