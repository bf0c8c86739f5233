/-
Lines as a scanner counts them. A text falls into parts, each the longest piece in front of what
follows it, and the count of lines moves at line breaks and block comments only. It stays true all
the same: what writes a token has no line feed in it, and neither has what a text fails at. Main
statement: `tokenize_positions`.
-/
import SmallJava.Proofs.Token.Joined

namespace SmallJava

open Computability

/-! ## Failures -/

/-- What is written where a text has no more tokens. -/
def LexError.slice : LexError → List Char
  | unrecognized slice _ => slice.toList
  | tooLarge slice _ => slice.toList

/-- The line a failure names. -/
def LexError.line : LexError → Nat
  | unrecognized _ line => line
  | tooLarge _ line => line

/-- The text fails at its start: the longest piece there is refused, or no rule matches there. -/
inductive LexError.FailsAt (e : LexError) : List Char → Prop
  | refused {rule : Rule} {after : List Char} :
      rule.Longest e.slice after → rule.Refuses e.slice e.cause.1 → FailsAt e (e.slice ++ after)
  | unmatched {after : List Char} : e.slice ≠ [] → e.cause.1 = .unrecognized →
      (∀ rule : Rule, ∀ w ∈ rule.pattern, ¬ w <+: e.slice ++ after) → FailsAt e (e.slice ++ after)

/-! ## Parts of a text -/

/-- A part of a text: what a rule takes off it, and the token written there, if any. -/
structure Part where
  rule : Rule
  lexeme : List Char
  token? : Option Token

namespace Part

/-- The rule makes the part's token of the part's lexeme, and none if the part has none. -/
def Written (p : Part) : Prop :=
  match p.token? with
  | some t => p.rule.Writes p.lexeme t
  | none => p.rule.Silent

/-- How far the count of lines moves behind the part: a line break moves it by one, a block comment
by the line feeds in it, and nothing else does. -/
def advance (p : Part) : Nat :=
  match p.rule with
  | .lineBreak => 1
  | .blockComment => p.lexeme.count '\n'
  | _ => 0

/-- How far the count has moved behind the parts. -/
def advanced : List Part → Nat
  | [] => 0
  | p :: ps => p.advance + advanced ps

/-- What is written in the parts, in order. -/
def text (ps : List Part) : List Char := (ps.map lexeme).flatten

/-- The tokens of the parts, one after another. -/
def tokens (ps : List Part) : List Token := ps.filterMap token?

/-- The tokens of the parts, each on the line that the count has reached in front of it. -/
def counted (line : Nat) : List Part → List Located
  | [] => []
  | p :: ps => (p.token?.map (⟨·, line⟩)).toList ++ counted (line + p.advance) ps

/-- A text falls into the parts, in order, and what is left of it. -/
inductive Cut : List Char → List Part → List Char → Prop
  | stop {rest : List Char} : Cut rest [] rest
  | piece {p : Part} {ps : List Part} {following rest : List Char} :
      p.rule.Longest p.lexeme following → p.Written → Cut following ps rest →
      Cut (p.lexeme ++ following) (p :: ps) rest

@[simp] theorem text_nil : text [] = [] := rfl

@[simp] theorem text_cons (p : Part) (ps : List Part) : text (p :: ps) = p.lexeme ++ text ps := rfl

theorem tokens_cons (p : Part) (ps : List Part) :
    tokens (p :: ps) = p.token?.toList ++ tokens ps := by
  unfold tokens
  cases h : p.token? with
  | none => rw [List.filterMap_cons_none h]; rfl
  | some t => rw [List.filterMap_cons_some h]; rfl

theorem Cut.text_append {source rest : List Char} {ps : List Part} (h : Cut source ps rest) :
    source = text ps ++ rest := by
  induction h with
  | stop => rfl
  | piece _ _ _ ih => rw [text_cons, List.append_assoc, ← ih]

/-! ## Line feeds of a part -/

/-- No part with a token goes on over a line. -/
theorem Written.not_mem {p : Part} (h : p.Written) (hmatched : p.lexeme ∈ p.rule.pattern)
    {t : Token} (ht : p.token? = some t) : '\n' ∉ p.lexeme := by
  unfold Written at h
  rw [ht] at h
  refine Rule.onOneLine_pattern ?_ ?_ p.lexeme hmatched
  · intro hrule
    rw [hrule] at h
    cases h
  · intro hrule
    rw [hrule] at h
    cases h

/-- The count moves by the line feeds of the part: a line break has one, a carriage return before it
or not, and what is neither a line break nor a block comment has none. -/
theorem advance_eq {p : Part} (hmatched : p.lexeme ∈ p.rule.pattern) :
    p.advance = p.lexeme.count '\n' := by
  by_cases hbreak : p.rule = .lineBreak
  · rw [hbreak] at hmatched
    rw [advance, hbreak]
    rcases Rule.mem_lineBreak.1 hmatched with h | h <;> rw [h] <;> rfl
  · by_cases hcomment : p.rule = .blockComment
    · rw [advance, hcomment]
    · have hzero : p.lexeme.count '\n' = 0 :=
        List.count_eq_zero.2 (Rule.onOneLine_pattern hcomment hbreak p.lexeme hmatched)
      rw [hzero, advance]
      split
      · exact absurd ‹_› hbreak
      · exact absurd ‹_› hcomment
      · rfl

/-- Every part of a text is matched by its rule, which makes its token. -/
theorem Cut.part {source rest : List Char} {ps : List Part} (h : Cut source ps rest) :
    ∀ p ∈ ps, p.lexeme ∈ p.rule.pattern ∧ p.Written := by
  induction h with
  | stop => exact fun _ hp => absurd hp List.not_mem_nil
  | piece hlongest hwritten _ ih =>
    intro q hq
    rcases List.mem_cons.1 hq with rfl | hq
    · exact ⟨hlongest.matched, hwritten⟩
    · exact ih q hq

/-- Behind any parts the count has moved by the line feeds in them. -/
theorem advanced_eq {ps : List Part} (h : ∀ p ∈ ps, p.lexeme ∈ p.rule.pattern) :
    advanced ps = (text ps).count '\n' := by
  induction ps with
  | nil => rfl
  | cons p ps ih =>
    rw [Part.advanced, text_cons, List.count_append,
      advance_eq (h p (List.mem_cons_self ..)), ih fun q hq => h q (List.mem_cons_of_mem p hq)]

theorem Cut.advanced_eq {source rest : List Char} {before after : List Part}
    (h : Cut source (before ++ after) rest) :
    advanced before = (text before).count '\n' :=
  Part.advanced_eq fun p hp => (h.part p (List.mem_append_left after hp)).1

/-! ## Tokens of the parts -/

theorem counted_tokens (line : Nat) (ps : List Part) :
    (counted line ps).map Located.token = tokens ps := by
  induction ps generalizing line with
  | nil => rfl
  | cons p ps ih =>
    rw [counted, tokens_cons, List.map_append, ih]
    cases p.token? <;> rfl

theorem counted_append (line : Nat) (before after : List Part) :
    counted line (before ++ after) =
      counted line before ++ counted (line + advanced before) after := by
  induction before generalizing line with
  | nil => rfl
  | cons p ps ih =>
    simp only [List.cons_append, counted, ih, Part.advanced, List.append_assoc,
      Nat.add_assoc]

theorem length_counted (line : Nat) (ps : List Part) :
    (counted line ps).length = (tokens ps).length := by
  rw [← counted_tokens line ps, List.length_map]

/-- The token of a part comes behind those of the parts before it, on the line counted so far. -/
theorem counted_getElem? (line : Nat) {before after : List Part} {p : Part} {t : Token}
    (ht : p.token? = some t) :
    (counted line (before ++ p :: after))[(tokens before).length]? =
      some ⟨t, line + advanced before⟩ := by
  rw [counted_append, ← length_counted line before, List.getElem?_append_right (Nat.le_refl _),
    Nat.sub_self, counted, ht]
  rfl

end Part

/-! ## What the scanner makes of a text -/

namespace Token

variable {rule : Rule} {w rest : List Char} {line : Nat}

theorem ofPiece_error {piece : Piece} {e : LexError} (h : ofPiece piece w line = .error e) :
    e.slice = w ∧ e.line = line := by
  unfold ofPiece at h
  split at h
  · split at h
    · cases h
    · cases h
      exact ⟨String.toList_ofList, rfl⟩
  · split at h
    · cases h
    · cases h
      exact ⟨String.toList_ofList, rfl⟩
  · cases h
  · split at h
    · cases h
    · cases h
      exact ⟨String.toList_ofList, rfl⟩
  all_goals cases h

/-- What the scanner makes of a longest piece is what its rule makes of it. -/
theorem ofPiece_ok {written : Option Token} (hlongest : rule.Longest w rest)
    (h : ofPiece rule.piece w line = .ok written) : (Part.mk rule w written).Written := by
  rcases Rule.writes_or_refuses hlongest.matched with ⟨t, ht⟩ | hsilent | ⟨cause, hcause⟩
  · rw [Rule.ofPiece_of_writes hlongest ht line] at h
    cases h
    exact ht
  · rw [Rule.ofPiece_of_silent hsilent w line] at h
    cases h
    exact hsilent
  · obtain ⟨e, he, -⟩ := Rule.ofPiece_of_refuses hcause line
    rw [he] at h
    cases h

theorem ofPiece_refused {e : LexError} (hlongest : rule.Longest w rest)
    (h : ofPiece rule.piece w line = .error e) : rule.Refuses w e.cause.1 := by
  rcases Rule.writes_or_refuses hlongest.matched with ⟨t, ht⟩ | hsilent | ⟨cause, hcause⟩
  · rw [Rule.ofPiece_of_writes hlongest ht line] at h
    cases h
  · rw [Rule.ofPiece_of_silent hsilent w line] at h
    cases h
  · obtain ⟨e', he, hcause'⟩ := Rule.ofPiece_of_refuses hcause line
    rw [he] at h
    cases h
    rw [hcause']
    exact hcause

/-- What no rule matches at its start, the scanner fails at: with one character, or with a quote and
what is left of its line. -/
theorem stray_failsAt (line : Nat) {c : Char} {cs : List Char}
    (hrules : ∀ rule : Rule, ∀ w ∈ rule.pattern, ¬ w <+: c :: cs) :
    let e := LexError.unrecognized (.ofList (c :: cs.take (Piece.strayExtent c cs))) line
    e.FailsAt (c :: cs) ∧ '\n' ∉ e.slice := by
  intro e
  have hslice : e.slice = c :: cs.take (Piece.strayExtent c cs) := String.toList_ofList
  have htext : c :: cs = e.slice ++ cs.drop (Piece.strayExtent c cs) := by
    rw [hslice, List.cons_append, List.take_append_drop]
  constructor
  · have hstop : e.FailsAt (e.slice ++ cs.drop (Piece.strayExtent c cs)) := by
      refine .unmatched ?_ rfl ?_
      · rw [hslice]
        exact List.cons_ne_nil _ _
      · rwa [← htext]
    rwa [← htext] at hstop
  · rw [hslice]
    intro hfeed
    rcases List.mem_cons.1 hfeed with rfl | hfeed
    · -- a line feed is a piece
      exact hrules .lineBreak ['\n'] (Rule.mem_lineBreak.2 (.inl rfl)) ⟨cs, rfl⟩
    · unfold Piece.strayExtent at hfeed
      split at hfeed
      · have hline := (List.prefix_iff_eq_take.1 (List.takeWhile_prefix (· != '\n') (l := cs)))
        rw [← hline] at hfeed
        simpa using List.mem_takeWhile_imp hfeed
      · cases hfeed

/-- The scanner ends behind the parts, having counted from the given line on: nothing is left and the
tokens are those of the parts, or what is left fails, on one line and on the line counted. -/
def Finishes (line : Nat) (ps : List Part) (rest : List Char) :
    Except LexError (List Located) → Prop
  | .ok toks => rest = [] ∧ toks = Part.counted line ps
  | .error e => e.FailsAt rest ∧ '\n' ∉ e.slice ∧ e.line = line + Part.advanced ps

variable {p : Part} {ps : List Part} {result : Except LexError (List Located)}

/-- A failure behind a part is one in front of it. -/
theorem Finishes.error {e : LexError} (h : Finishes (line + p.advance) ps rest (.error e)) :
    Finishes line (p :: ps) rest (.error e) := by
  obtain ⟨hfails, hfeed, hline⟩ := h
  refine ⟨hfails, hfeed, ?_⟩
  rw [hline, Part.advanced, Nat.add_assoc]

theorem Finishes.skip (hp : p.token? = none) (h : Finishes (line + p.advance) ps rest result) :
    Finishes line (p :: ps) rest result := by
  cases result with
  | error e => exact h.error
  | ok toks =>
    obtain ⟨hrest, rfl⟩ := h
    refine ⟨hrest, ?_⟩
    rw [Part.counted, hp]
    rfl

theorem Finishes.token {t : Token} (hp : p.token? = some t)
    (h : Finishes (line + p.advance) ps rest result) :
    Finishes line (p :: ps) rest (result.map (⟨t, line⟩ :: ·)) := by
  cases result with
  | error e => exact h.error
  | ok toks =>
    obtain ⟨hrest, rfl⟩ := h
    refine ⟨hrest, ?_⟩
    rw [Part.counted, hp]
    rfl

/-- A longest piece that is refused ends the text on the line counted. -/
theorem finishes_refused {e : LexError} (hlongest : rule.Longest w rest)
    (h : ofPiece rule.piece w line = .error e) : Finishes line [] (w ++ rest) (.error e) := by
  obtain ⟨rfl, hline⟩ := ofPiece_error h
  have hrefused := ofPiece_refused hlongest h
  refine ⟨.refused hlongest hrefused, ?_, hline⟩
  refine Rule.onOneLine_pattern ?_ ?_ e.slice hlongest.matched
  · rintro rfl
    cases hrefused
  · rintro rfl
    cases hrefused

/-- The scanner goes through the parts of a text, counting lines, until nothing is left or the text
fails. -/
theorem scan_cut (line : Nat) : ∀ text : List Char, ∃ ps rest, Part.Cut text ps rest ∧
    Finishes line ps rest (scan line text)
  | [] => by
    refine ⟨[], [], .stop, ?_⟩
    rw [scan]
    exact ⟨rfl, rfl⟩
  | c :: cs => by
    have hfound := Rule.found_first? c cs
    cases hfirst : Piece.first? c cs with
    | none =>
      rw [hfirst] at hfound
      obtain ⟨hfails, hfeed⟩ := stray_failsAt line hfound
      refine ⟨[], c :: cs, .stop, ?_⟩
      rw [scan, hfirst]
      exact ⟨hfails, hfeed, rfl⟩
    | some taken =>
      obtain ⟨piece, n⟩ := taken
      rw [hfirst] at hfound
      obtain ⟨rule, -, hlongest⟩ := hfound
      have htext : c :: cs = (c :: cs.take n) ++ cs.drop n := by
        rw [List.cons_append, List.take_append_drop]
      rw [htext, scan_longest hlongest]
      cases hpiece : ofPiece rule.piece (c :: cs.take n) line with
      | error e => exact ⟨[], _, .stop, finishes_refused hlongest hpiece⟩
      | ok written =>
        let part : Part := ⟨rule, c :: cs.take n, written⟩
        have hadvance : part.advance = (c :: cs.take n).count '\n' :=
          Part.advance_eq hlongest.matched
        obtain ⟨ps, rest, hcut, hfinishes⟩ := scan_cut (line + part.advance) (cs.drop n)
        refine ⟨part :: ps, rest, .piece hlongest (ofPiece_ok hlongest hpiece) hcut, ?_⟩
        rw [← hadvance]
        cases written with
        | none => exact hfinishes.skip rfl
        | some t => exact hfinishes.token rfl
termination_by text => text.length
decreasing_by simp only [List.length_drop, List.length_cons]; omega

/-- The lines of tokens and of failures are true. A source text falls into parts, in order, and the
count of lines is true in front of each, since no part with a token goes on over a line. If the text
has tokens, nothing of it is left, and every part that writes a token has it in its turn, on the line
one beyond the line feeds before the part. If the text fails, what is left starts with the slice the
failure names, on one line, and that is the line one beyond the line feeds before it. -/
theorem tokenize_positions (source : String) : ∃ ps rest, Part.Cut source.toList ps rest ∧
    source.toList = Part.text ps ++ rest ∧
    (∀ before after, ps = before ++ after →
      Part.advanced before = (Part.text before).count '\n') ∧
    (∀ p ∈ ps, ∀ t, p.token? = some t → '\n' ∉ p.lexeme) ∧
    match tokenize source with
    | .ok toks => rest = [] ∧ toks.map Located.token = Part.tokens ps ∧
        ∀ before p after t, ps = before ++ p :: after → p.token? = some t →
          toks[(Part.tokens before).length]? = some ⟨t, 1 + (Part.text before).count '\n'⟩
    | .error e => e.FailsAt rest ∧ '\n' ∉ e.slice ∧ e.line = 1 + (Part.text ps).count '\n' := by
  obtain ⟨ps, rest, hcut, hfinishes⟩ := scan_cut 1 source.toList
  refine ⟨ps, rest, hcut, hcut.text_append, ?_, ?_, ?_⟩
  · rintro before after rfl
    exact hcut.advanced_eq
  · intro p hp t ht
    obtain ⟨hmatched, hwritten⟩ := hcut.part p hp
    exact hwritten.not_mem hmatched ht
  · rw [← tokenize] at hfinishes
    cases htoks : tokenize source with
    | ok toks =>
      rw [htoks] at hfinishes
      obtain ⟨hrest, rfl⟩ := hfinishes
      refine ⟨hrest, Part.counted_tokens 1 ps, ?_⟩
      rintro before p after t rfl ht
      rw [Part.counted_getElem? 1 ht, hcut.advanced_eq]
    | error e =>
      rw [htoks] at hfinishes
      obtain ⟨hfails, hfeed, hline⟩ := hfinishes
      refine ⟨hfails, hfeed, ?_⟩
      rw [hline, Part.advanced_eq fun p hp => (hcut.part p hp).1]

example : tokenize "a /* *\n **/\r\n// b\n\"\\n\" @ c" = .error (.unrecognized "@" 4) := by
  decide +kernel

end Token

end SmallJava
