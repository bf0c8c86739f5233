/-
What tokens of a source text can be: a name is a word that is no keyword, and a number is finite and
has no minus sign. Main statement: every token of a source text is lexical.
-/
import SmallJava.Token.Lexer
import Mathlib.Data.List.TakeWhile
import Mathlib.Tactic.Common

namespace SmallJava

/-! ## Numbers -/

namespace Double

/-- A finite number without a minus sign. -/
def Plain (x : Double) : Prop := ∃ units h, x = .finite false units h

theorem plain_ofUnits {units : Nat} (h : (ofUnits false units).isFinite = true) :
    (ofUnits false units).Plain := by
  unfold ofUnits at *
  split
  · rename_i hr; exact ⟨units, hr, rfl⟩
  · rename_i hr; rw [dif_neg hr] at h; cases h

theorem plain_ofDecimal {d : Decimal} (h : (ofDecimal false d).isFinite = true) :
    (ofDecimal false d).Plain := by
  unfold ofDecimal at *
  split at h
  · rename_i h0; rw [if_pos h0]; exact ⟨0, representable_zero, rfl⟩
  · rename_i h0
    rw [if_neg h0]
    split at h
    · cases h
    · rename_i h1
      rw [if_neg h1]
      split at h
      · rename_i h2; rw [if_pos h2]; exact ⟨0, representable_zero, rfl⟩
      · rename_i h2; rw [if_neg h2]; exact plain_ofUnits h

end Double

/-! ## Names -/

/-- A word that can be a name: it starts like one, goes on like one and is no keyword. -/
structure IsName (n : String) : Prop where
  letters : ∃ c cs, n.toList = c :: cs ∧ Piece.isNameStart c = true ∧
    ∀ x ∈ cs, Piece.isNameRest x = true
  free : Keyword.ofSpelling? n = none

namespace Token

/-- What the tokens of a source text are. -/
def Lexical : Token → Prop
  | number x => x.Plain
  | name n => IsName n
  | _ => True

/-! ## The longest piece -/

theorem first?_word {c : Char} {cs : List Char} {extent : Nat}
    (h : Piece.first? c cs = some (.word, extent)) :
    Piece.isNameStart c = true ∧ extent = (cs.takeWhile Piece.isNameRest).length := by
  unfold Piece.first? at h
  -- only a letter starts a word; every other start gives a piece of another kind
  split at h
  · cases h
  · split at h
    · rename_i hc; cases h; exact ⟨hc, rfl⟩
    · split at h
      · cases h
      · split at h
        · obtain ⟨_, -, h⟩ := Option.map_eq_some_iff.1 h; cases h
        · split at h
          · cases h
          · cases h
          · cases h
          · split at h <;> cases h
          · obtain ⟨_, -, h⟩ := Option.map_eq_some_iff.1 h; cases h

theorem take_takeWhile_length {α : Type} (p : α → Bool) (as : List α) :
    as.take (as.takeWhile p).length = as.takeWhile p :=
  (List.prefix_iff_eq_take.1 (List.takeWhile_prefix p)).symm

theorem drop_takeWhile_length {α : Type} (p : α → Bool) (as : List α) :
    as.drop (as.takeWhile p).length = as.dropWhile p := by
  induction as with
  | nil => rfl
  | cons a as ih =>
    rw [List.takeWhile_cons, List.dropWhile_cons]
    split
    · rw [List.length_cons, List.drop_succ_cons, ih]
    · rfl

theorem lexical_ofWord {c : Char} {cs : List Char} (hc : Piece.isNameStart c = true)
    (hcs : ∀ x ∈ cs, Piece.isNameRest x = true) : (ofWord (c :: cs)).Lexical := by
  unfold ofWord
  dsimp only
  split
  · trivial
  · rename_i hk
    exact ⟨⟨c, cs, String.toList_ofList, hc, hcs⟩, hk⟩

theorem lexical_ofNumber {slice : List Char} {t : Token} (h : ofNumber? slice = some t) :
    t.Lexical := by
  unfold ofNumber? at h
  split at h
  · rename_i x hx
    split at h
    · rename_i hf
      cases h
      obtain ⟨d, -, rfl⟩ := Option.map_eq_some_iff.1 hx
      exact Double.plain_ofDecimal hf
    · cases h
  · cases h

theorem lexical_ofPiece {c : Char} {cs : List Char} {piece : Piece} {extent line : Nat} {t : Token}
    (hp : Piece.first? c cs = some (piece, extent))
    (h : ofPiece piece (c :: cs.take extent) line = .ok (some t)) : t.Lexical := by
  unfold ofPiece at h
  split at h
  · split at h
    · rename_i ht; cases h; exact lexical_ofNumber ht
    · cases h
  · split at h
    · cases h; trivial
    · cases h
  · cases h
    -- the word is as long as it goes on with letters and digits
    obtain ⟨hc, rfl⟩ := first?_word hp
    rw [take_takeWhile_length]
    exact lexical_ofWord hc fun x hx => List.mem_takeWhile_imp hx
  · split at h
    · rename_i ht
      cases h
      obtain ⟨_, -, rfl⟩ := Option.map_eq_some_iff.1 (show (Symbol.ofChar? c).map _ = _ from ht)
      trivial
    · cases h
  all_goals cases h

/-! ## The whole text -/

theorem map_cons_eq_ok {ε : Type} {r : Except ε (List Located)} {t : Located} {toks : List Located}
    (h : r.map (t :: ·) = .ok toks) : ∃ rest, r = .ok rest ∧ toks = t :: rest := by
  cases r with
  | error e => cases h
  | ok rest => cases h; exact ⟨rest, rfl, rfl⟩

theorem scan_lexical : ∀ (line : Nat) (cs : List Char) (toks : List Located),
    scan line cs = .ok toks → ∀ t ∈ toks, t.token.Lexical
  | line, [], toks, h => by
    rw [scan] at h
    cases h
    exact fun _ ht => absurd ht List.not_mem_nil
  | line, c :: cs, toks, h => by
    rw [scan] at h
    split at h
    · cases h
    · rename_i piece extent hp
      dsimp only at h
      split at h
      · cases h
      · exact scan_lexical _ _ _ h
      · rename_i t ht
        obtain ⟨rest, hr, rfl⟩ := map_cons_eq_ok h
        intro u hu
        rcases List.mem_cons.1 hu with rfl | hu
        · exact lexical_ofPiece hp ht
        · exact scan_lexical _ _ _ hr u hu
termination_by _ cs => cs.length
decreasing_by all_goals simp only [List.length_drop, List.length_cons]; omega

/-- The tokens of a source text are lexical. -/
theorem tokenize_lexical {source : String} {toks : List Located}
    (h : tokenize source = .ok toks) : ∀ t ∈ toks, t.token.Lexical := scan_lexical 1 _ toks h

end Token

end SmallJava
