/-
The scanner and the reference. What the scanner takes off a text is the longest piece that any rule
matches, and it makes of the piece what the rule does. Main statement: `tokenize_reads`, the scanner
reads every source text as the reference does, failures included.
-/
import SmallJava.Proofs.Token.Reference
import SmallJava.Proofs.Decimal.Numeral

namespace SmallJava

open Computability

/-- The kind of the pieces that a rule matches. -/
def Rule.piece : Rule → Piece
  | number => .number
  | quoted => .quoted
  | keyword _ => .word
  | word => .word
  | lineComment => .lineComment
  | blockComment => .blockComment
  | symbol _ => .symbol
  | lineBreak => .lineBreak
  | blanks => .blanks

namespace Rule

open Pattern

variable {rule : Rule} {c : Char} {cs : List Char} {n : Nat}

/-! ## From extents to longest pieces -/

/-- A rule matches the longest piece if no rule with its start matches more. -/
theorem longest_of_extent (h : LongestIn rule.pattern (c :: cs) (n + 1))
    (hother : ∀ other : Rule, other.start = rule.start → ∀ w ∈ other.pattern, w <+: c :: cs →
      w.length ≤ n + 1)
    (hk : ∀ k, c :: cs.take n ∈ (keyword k).pattern → rule = keyword k) :
    rule.Longest (c :: cs.take n) (cs.drop n) := by
  have htext : (c :: cs.take n) ++ cs.drop n = c :: cs := by
    rw [List.cons_append, List.take_append_drop]
  have hstart : Start.ofChar? c = some rule.start :=
    start_of_isPrefix h.taken (List.take_prefix _ _)
  have hlength : (c :: cs.take n).length = n + 1 := by
    have := h.within
    rw [List.length_cons] at this
    rw [List.length_cons, List.length_take_of_le (by omega)]
  refine ⟨h.taken, List.cons_ne_nil _ _, fun other w hw hp => ?_, hk⟩
  rw [htext] at hp
  rw [hlength]
  exact hother other (Option.some.inj ((start_of_isPrefix hw hp).symm.trans hstart)) w hw hp

/-- A rule that starts as no other does matches the longest piece. -/
theorem longest_alone (h : LongestIn rule.pattern (c :: cs) (n + 1))
    (halone : ∀ other : Rule, other.start = rule.start → other = rule) :
    rule.Longest (c :: cs.take n) (cs.drop n) := by
  refine longest_of_extent h (fun other ho w hw hp => ?_) fun k hk => ?_
  · rw [halone other ho] at hw
    exact h.bound w hw hp
  · refine (halone (keyword k) (Option.some.inj ?_)).symm
    rw [← start_of_isPrefix hk List.prefix_rfl]
    exact start_of_isPrefix h.taken List.prefix_rfl

/-- What the scanner takes for the longest piece is the longest piece, and where it finds none there
is none. -/
def Found (c : Char) (cs : List Char) : Option (Piece × Nat) → Prop
  | some (piece, n) =>
    ∃ rule : Rule, rule.piece = piece ∧ rule.Longest (c :: cs.take n) (cs.drop n)
  | none => ∀ rule : Rule, ∀ w ∈ rule.pattern, ¬ w <+: c :: cs

/-! ## Words -/

theorem spelling_of_ofSpelling? {w : String} {k : Keyword} (h : Keyword.ofSpelling? w = some k) :
    k.spelling = w := by simpa using List.find?_some h

/-- The letters and digits after a letter are a keyword or a name. -/
theorem found_word (hc : Piece.isNameStart c = true) (cs : List Char) :
    Found c cs (some (.word, (cs.takeWhile Piece.isNameRest).length)) := by
  have hword : LongestIn word.pattern (c :: cs) ((cs.takeWhile Piece.isNameRest).length + 1) := by
    have h : Extent (one Piece.isNameRest)∗ cs (some _) := LongestIn.one_kstar
    rw [Nat.add_comm]
    exact h.one_mul hc
  -- keywords are words, so no keyword is longer
  have hother (other : Rule) (ho : other.start = .letter) (w : List Char) (hw : w ∈ other.pattern)
      (hp : w <+: c :: cs) : w.length ≤ (cs.takeWhile Piece.isNameRest).length + 1 := by
    rcases of_start_letter ho with rfl | ⟨k, rfl⟩
    · exact hword.bound w hw hp
    · exact hword.bound w (mem_word_of_keyword hw) hp
  have hkeyword (k : Keyword) (hk : c :: cs.take (cs.takeWhile Piece.isNameRest).length ∈
      (keyword k).pattern) : Keyword.ofSpelling? (.ofList (c :: cs.take
        (cs.takeWhile Piece.isNameRest).length)) = some k := by
    rw [mem_exactly.1 hk, String.ofList_toList, Keyword.ofSpelling?_spelling]
  cases hk : Keyword.ofSpelling?
      (.ofList (c :: cs.take (cs.takeWhile Piece.isNameRest).length)) with
  | none =>
    refine ⟨word, rfl, longest_of_extent hword hother fun k h => ?_⟩
    rw [hkeyword k h] at hk
    cases hk
  | some k =>
    have hmatched : c :: cs.take (cs.takeWhile Piece.isNameRest).length ∈ (keyword k).pattern := by
      rw [pattern, mem_exactly, spelling_of_ofSpelling? hk, String.toList_ofList]
    refine ⟨keyword k, rfl, longest_of_extent ⟨hmatched, hword.within, fun w hw hp => ?_⟩
      hother fun k' h => ?_⟩
    · exact hword.bound w (mem_word_of_keyword hw) hp
    · rw [hkeyword k' h] at hk
      cases hk
      rfl

/-! ## Line ends -/

theorem mem_lineBreak {w : List Char} :
    w ∈ Pattern.lineBreak ↔ w = ['\n'] ∨ w = ['\r', '\n'] := by
  rw [Pattern.lineBreak, mem_opt_mul, mem_exactly_mul]
  simp

theorem found_lineFeed (cs : List Char) : Found '\n' cs (some (.lineBreak, 0)) := by
  refine ⟨lineBreak, rfl, longest_alone ⟨mem_lineBreak.2 (Or.inl rfl), by simp, ?_⟩
    fun other => of_start_lineEnd⟩
  intro w hw hp
  rcases mem_lineBreak.1 hw with rfl | rfl
  · exact Nat.le_refl 1
  · cases (List.cons_prefix_cons.1 hp).1

theorem found_carriageReturn (cs : List Char) : Found '\r' cs
    (match cs with | '\n' :: _ => some (.lineBreak, 1) | _ => none) := by
  split
  · rename_i rest
    refine ⟨lineBreak, rfl, longest_alone ⟨mem_lineBreak.2 (Or.inr rfl), by simp, ?_⟩
      fun other => of_start_lineEnd⟩
    intro w hw hp
    rcases mem_lineBreak.1 hw with rfl | rfl
    · cases (List.cons_prefix_cons.1 hp).1
    · exact Nat.le_refl 2
  · rename_i hcs
    rintro rule w hw ⟨rest, hp⟩
    have hrule : rule = lineBreak :=
      of_start_lineEnd (Option.some.inj (start_of_isPrefix hw ⟨rest, hp⟩).symm)
    subst hrule
    rcases mem_lineBreak.1 hw with rfl | rfl
    · cases hp
    · cases hp
      exact hcs rest rfl

/-! ## Slashes -/

theorem found_lineComment (rest : List Char) :
    Found '/' ('/' :: rest) (some (.lineComment, 1 + Piece.lineExtent rest)) := by
  have h : LongestIn lineComment.pattern ('/' :: '/' :: rest) (1 + Piece.lineExtent rest + 1) := by
    have h : Extent (one fun c => c != '\n' && c != '\r')∗ rest (some _) := LongestIn.one_kstar
    rw [Nat.add_comm 1, Nat.add_assoc, Nat.add_comm]
    exact h.exactly_mul ['/', '/']
  refine ⟨lineComment, rfl, longest_of_extent h (fun other ho w hw hp => ?_) fun k hk => ?_⟩
  · rcases of_start_sign ho with rfl | ⟨-, rfl | rfl⟩
    · rw [mem_exactly.1 hw]
      exact Nat.le_add_left _ _
    · exact h.bound w hw hp
    · obtain ⟨v, -, rfl⟩ := mem_exactly_mul.1 hw
      cases (List.cons_prefix_cons.1 (List.cons_prefix_cons.1 hp).2).1
  · cases start_of_isPrefix hk List.prefix_rfl

/-- A slash stands alone where no comment is matched. -/
theorem found_slash (hline : ∀ w ∈ lineComment.pattern, ¬ w <+: '/' :: cs)
    (hblock : ∀ w ∈ blockComment.pattern, ¬ w <+: '/' :: cs) :
    Found '/' cs (some (.symbol, 0)) := by
  have h : LongestIn (symbol .slash).pattern ('/' :: cs) 1 :=
    LongestIn.exactly (w := ['/']) ⟨cs, rfl⟩
  refine ⟨symbol .slash, rfl, longest_of_extent h (fun other ho w hw hp => ?_) fun k hk => ?_⟩
  · rcases of_start_sign ho with rfl | ⟨-, rfl | rfl⟩
    · exact h.bound w hw hp
    · exact absurd hp (hline w hw)
    · exact absurd hp (hblock w hw)
  · cases start_of_isPrefix hk List.prefix_rfl

theorem not_lineComment (hc : ∀ rest, cs ≠ '/' :: rest) :
    ∀ w ∈ lineComment.pattern, ¬ w <+: '/' :: cs := by
  rintro w hw ⟨rest, hp⟩
  obtain ⟨v, -, rfl⟩ := mem_exactly_mul.1 hw
  cases hp
  exact hc _ rfl

theorem not_blockComment (hc : ∀ rest, cs ≠ '*' :: rest) :
    ∀ w ∈ blockComment.pattern, ¬ w <+: '/' :: cs := by
  rintro w hw ⟨rest, hp⟩
  obtain ⟨v, -, rfl⟩ := mem_exactly_mul.1 hw
  cases hp
  exact hc _ rfl

theorem found_blockComment (rest : List Char) : Found '/' ('*' :: rest)
    (match Piece.closeExtent? rest with
      | some n => some (.blockComment, 1 + n)
      | none => some (.symbol, 0)) := by
  have hclose := (extent_commentRest rest).exactly_mul ['/', '*']
  cases hn : Piece.closeExtent? rest with
  | none =>
    rw [hn] at hclose
    exact found_slash (not_lineComment fun _ h => by cases h) hclose
  | some n =>
    rw [hn] at hclose
    have h : LongestIn blockComment.pattern ('/' :: '*' :: rest) (1 + n + 1) := by
      rw [Nat.add_comm 1, Nat.add_assoc, Nat.add_comm]
      exact hclose
    refine ⟨blockComment, rfl, longest_of_extent h (fun other ho w hw hp => ?_) fun k hk => ?_⟩
    · rcases of_start_sign ho with rfl | ⟨-, rfl | rfl⟩
      · rw [mem_exactly.1 hw]
        exact Nat.le_add_left _ _
      · exact absurd hp (not_lineComment (fun _ h => by cases h) w hw)
      · exact h.bound w hw hp
    · cases start_of_isPrefix hk List.prefix_rfl

/-! ## Any start -/

theorem found_symbol {s : Symbol} (hs : s ≠ .slash) (cs : List Char) :
    Found s.char cs (some (.symbol, 0)) := by
  refine ⟨symbol s, rfl, longest_alone (LongestIn.exactly (w := [s.char]) ⟨cs, rfl⟩)
    fun other ho => ?_⟩
  rcases of_start_sign ho with rfl | ⟨h, -⟩
  · rfl
  · exact absurd h hs

theorem found_quoted (cs : List Char) :
    Found '"' cs ((Piece.quotedExtent? cs).map (.quoted, ·)) := by
  have h := (extent_unquoted cs).exactly_mul ['"']
  cases hn : Piece.quotedExtent? cs with
  | none =>
    rw [hn] at h
    intro rule w hw hp
    have hrule := of_start_quote (Option.some.inj (start_of_isPrefix hw hp).symm)
    subst hrule
    exact h w hw hp
  | some n =>
    rw [hn] at h
    refine ⟨quoted, rfl, longest_alone ?_ fun other => of_start_quote⟩
    rw [Nat.add_comm]
    exact h

/-- A character that starts nothing but a symbol. -/
theorem found_other (hstart : Start.ofChar? c = (Symbol.ofChar? c).map .sign ∨ c = '\r')
    (hreturn : ∀ rest, c = '\r' → cs ≠ '\n' :: rest)
    (hline : ∀ rest, c = '/' → cs ≠ '/' :: rest) (hblock : ∀ rest, c = '/' → cs ≠ '*' :: rest) :
    Found c cs ((Symbol.ofChar? c).map fun _ => (.symbol, 0)) := by
  rcases hstart with hstart | rfl
  · cases hs : Symbol.ofChar? c with
    | none =>
      intro rule w hw hp
      rw [start_of_isPrefix hw hp, hs] at hstart
      cases hstart
    | some s =>
      obtain rfl := Symbol.char_of_ofChar? hs
      by_cases hslash : s = .slash
      · subst hslash
        exact found_slash (not_lineComment fun rest => hline rest rfl)
          (not_blockComment fun rest => hblock rest rfl)
      · exact found_symbol hslash cs
  · have h := found_carriageReturn cs
    split at h
    · rename_i rest
      exact absurd rfl (hreturn rest rfl)
    · exact h

/-- The scanner finds the longest piece. -/
theorem found_first? (c : Char) (cs : List Char) : Found c cs (Piece.first? c cs) := by
  unfold Piece.first?
  split
  · rename_i hc
    exact ⟨number, rfl, longest_alone (longest_number hc cs) fun other => of_start_digit⟩
  · rename_i hdigit
    split
    · rename_i hc
      exact found_word hc cs
    · rename_i hletter
      split
      · rename_i hc
        refine ⟨blanks, rfl, longest_alone ?_ fun other => of_start_blank⟩
        have htake : (c :: cs).takeWhile Piece.isBlank = c :: cs.takeWhile Piece.isBlank :=
          List.takeWhile_cons_of_pos hc
        have h : LongestIn Pattern.blanks (c :: cs) _ :=
          LongestIn.plus_one (by rw [htake]; exact List.cons_ne_nil _ _)
        rw [htake] at h
        exact h
      · rename_i hblank
        split
        · rename_i hc
          subst hc
          exact found_quoted cs
        · rename_i hquote
          split
          · exact found_lineFeed cs
          · exact found_carriageReturn ('\n' :: _)
          · exact found_lineComment _
          · exact found_blockComment _
          · rename_i hfeed hreturn hline hblock
            refine found_other ?_ hreturn hline hblock
            rw [Start.ofChar?, if_neg hdigit, if_neg hletter, if_neg hblank, if_neg hquote]
            by_cases hr : c = '\r'
            · exact Or.inr hr
            · exact Or.inl (if_neg fun h => h.elim (fun h => hfeed h) hr)

/-! ## Numbers -/

/-- What the rule for numbers matches is a numeral. -/
theorem ofNumeral?_of_mem {w : List Char} (h : w ∈ number.pattern) :
    ∃ x, Double.ofNumeral? false w = some x := by
  obtain ⟨d, hd⟩ :=
    Option.isSome_iff_exists.1 (Numeral.isSome_decimal?.2 (mem_decimal_of_number h))
  exact ⟨_, by rw [Double.ofNumeral?, hd, Option.map_some]⟩

/-! ## Quoted texts -/

theorem mem_escapes {e c : Char} : (e, c) ∈ escapes ↔ Text.Quoted.unescape? e = some c := by
  unfold Text.Quoted.unescape? escapes
  constructor
  · intro h
    simp only [List.mem_cons, Prod.mk.injEq, List.not_mem_nil, or_false] at h
    rcases h with ⟨rfl, rfl⟩ | ⟨rfl, rfl⟩ | ⟨rfl, rfl⟩ | ⟨rfl, rfl⟩ | ⟨rfl, rfl⟩ <;> rfl
  · intro h
    split at h <;> cases h <;> decide

theorem decode_of_denotes {body text : List Char} (h : Denotes body text) :
    Text.Quoted.decode body = some text := by
  induction h with
  | nil => rfl
  | plain hc _ ih => rw [Text.Quoted.decode_cons hc, ih, Option.map_some]
  | escape he _ ih => simp [Text.Quoted.decode, mem_escapes.1 he, ih]

theorem decode_of_hasUnknownEscape {body : List Char} (h : HasUnknownEscape body) :
    Text.Quoted.decode body = none := by
  induction h with
  | @here e cs he =>
    cases hu : Text.Quoted.unescape? e with
    | none => simp [Text.Quoted.decode, hu]
    | some c => exact absurd (mem_escapes.2 hu) (he c)
  | plain hc _ ih => rw [Text.Quoted.decode_cons hc, ih, Option.map_none]
  | @escape e cs _ ih =>
    cases hu : Text.Quoted.unescape? e <;> simp [Text.Quoted.decode, hu, ih]

theorem unquote?_eq (body : List Char) :
    Text.Quoted.unquote? ('"' :: body ++ ['"']) = Text.Quoted.decode body := by
  simp [Text.Quoted.unquote?, Text.Quoted.strip?]

/-- What the rule for quoted texts matches denotes a text or holds an unknown escape. -/
theorem denotes_of_unquoted : ∀ {w : List Char}, w ∈ unquoted → ∃ body, w = body ++ ['"'] ∧
    ((∃ text, Denotes body text) ∨ HasUnknownEscape body)
  | [], h => by simpa using mem_unquoted.1 h
  | c :: cs, h => by
    rcases mem_unquoted.1 h with h | ⟨d, ds, h, hd, hds⟩ | ⟨e, ds, h, he, hds⟩
    · exact ⟨[], h, Or.inl ⟨[], .nil⟩⟩
    · cases h
      have hslash : c ≠ '\\' := by
        rintro rfl
        cases hd
      obtain ⟨body, rfl, ⟨text, htext⟩ | hunknown⟩ := denotes_of_unquoted hds
      · exact ⟨c :: body, rfl, Or.inl ⟨c :: text, .plain hslash htext⟩⟩
      · exact ⟨c :: body, rfl, Or.inr (.plain hslash hunknown)⟩
    · cases h
      obtain ⟨body, rfl, hbody⟩ := denotes_of_unquoted hds
      refine ⟨'\\' :: e :: body, rfl, ?_⟩
      rcases hbody with ⟨text, htext⟩ | hunknown
      · cases hu : Text.Quoted.unescape? e with
        | some c => exact Or.inl ⟨c :: text, .escape (mem_escapes.2 hu) htext⟩
        | none =>
          refine Or.inr (.here fun c hc => ?_)
          rw [mem_escapes.1 hc] at hu
          cases hu
      · exact Or.inr (.escape hunknown)
termination_by w => w.length

/-! ## What pieces stand for -/

/-- A rule makes a token of what it matches, or makes none, or refuses it. -/
theorem writes_or_refuses {rule : Rule} {w : List Char} (h : w ∈ rule.pattern) :
    (∃ t, rule.Writes w t) ∨ rule.Silent ∨ ∃ cause, rule.Refuses w cause := by
  cases rule with
  | number =>
    obtain ⟨x, hx⟩ := ofNumeral?_of_mem h
    cases hf : x.isFinite with
    | true => exact Or.inl ⟨_, .number hx hf⟩
    | false => exact Or.inr (Or.inr ⟨_, .number hx hf⟩)
  | quoted =>
    obtain ⟨v, hv, rfl⟩ := mem_exactly_mul.1 h
    obtain ⟨body, rfl, ⟨text, htext⟩ | hunknown⟩ := denotes_of_unquoted hv
    · exact Or.inl ⟨_, .quoted htext⟩
    · exact Or.inr (Or.inr ⟨_, .quoted hunknown⟩)
  | keyword k => exact Or.inl ⟨_, .keyword⟩
  | word => exact Or.inl ⟨_, .word⟩
  | symbol s => exact Or.inl ⟨_, .symbol⟩
  | lineComment => exact Or.inr (Or.inl .lineComment)
  | blockComment => exact Or.inr (Or.inl .blockComment)
  | lineBreak => exact Or.inr (Or.inl .lineBreak)
  | blanks => exact Or.inr (Or.inl .blanks)

theorem ofPiece_of_silent {rule : Rule} (h : rule.Silent) (w : List Char) (line : Nat) :
    Token.ofPiece rule.piece w line = .ok none := by
  cases h <;> rfl

theorem ofPiece_of_refuses {rule : Rule} {w : List Char} {cause : LexError.Cause}
    (h : rule.Refuses w cause) (line : Nat) :
    ∃ e, Token.ofPiece rule.piece w line = .error e ∧ e.cause = (cause, line) := by
  cases h with
  | number hx hf =>
    refine ⟨.tooLarge (.ofList w) line, ?_, rfl⟩
    simp [Token.ofPiece, piece, Token.ofNumber?, hx, hf]
  | @quoted body hunknown =>
    refine ⟨.unrecognized (.ofList ('"' :: body ++ ['"'])) line, ?_, rfl⟩
    simp only [Token.ofPiece, piece, unquote?_eq, decode_of_hasUnknownEscape hunknown]

/-- The scanner makes the token of a longest piece that its rule makes. -/
theorem ofPiece_of_writes {rule : Rule} {w rest : List Char} {t : Token}
    (hl : rule.Longest w rest) (h : rule.Writes w t) (line : Nat) :
    Token.ofPiece rule.piece w line = .ok (some t) := by
  cases h with
  | number hx hf => simp [Token.ofPiece, piece, Token.ofNumber?, hx, hf]
  | quoted htext => simp only [Token.ofPiece, piece, unquote?_eq, decode_of_denotes htext]
  | @keyword k =>
    rw [mem_exactly.1 hl.matched]
    exact congrArg (fun t => Except.ok (some t)) (Token.ofWord_spelling k)
  | word =>
    -- a word that were a keyword would be matched by the keyword's rule
    have hk : Keyword.ofSpelling? (.ofList w) = none := by
      cases hk : Keyword.ofSpelling? (.ofList w) with
      | none => rfl
      | some k =>
        have hkeyword : w ∈ (keyword k).pattern := by
          rw [pattern, mem_exactly, spelling_of_ofSpelling? hk, String.toList_ofList]
        cases hl.keyword k hkeyword
    simp [Token.ofPiece, piece, Token.ofWord, hk]
  | @symbol s =>
    rw [mem_exactly.1 hl.matched]
    simp [Token.ofPiece, piece, Token.ofSymbol?, Symbol.ofChar?_char]

end Rule

namespace Token

variable {line : Nat} {c : Char} {cs : List Char} {rule : Rule}

/-! ## One step of the scanner -/

theorem scan_of_none (h : Piece.first? c cs = none) :
    ((scan line (c :: cs)).mapError LexError.cause) = .error (.unrecognized, line) := by
  rw [scan, h]
  rfl

theorem scan_of_error {n : Nat} {e : LexError} (h : Piece.first? c cs = some (rule.piece, n))
    (he : ofPiece rule.piece (c :: cs.take n) line = .error e) :
    (scan line (c :: cs)).mapError LexError.cause = .error e.cause := by
  simp only [scan, h, he]
  rfl

theorem scan_of_token {n : Nat} {t : Token} (h : Piece.first? c cs = some (rule.piece, n))
    (ht : ofPiece rule.piece (c :: cs.take n) line = .ok (some t)) :
    (scan line (c :: cs)).mapError LexError.cause =
      ((scan (line + (c :: cs.take n).count '\n') (cs.drop n)).mapError LexError.cause).map
        (⟨t, line⟩ :: ·) := by
  rw [scan_piece h ht]
  cases scan (line + (c :: cs.take n).count '\n') (cs.drop n) <;> rfl

/-- The scanner takes off what any rule matches longest. -/
theorem first?_of_longest {w rest : List Char} (h : rule.Longest w rest) :
    ∃ c cs n, w ++ rest = c :: cs ∧ Piece.first? c cs = some (rule.piece, n) ∧
      c :: cs.take n = w ∧ cs.drop n = rest := by
  obtain ⟨c, cs, htext⟩ := List.exists_cons_of_ne_nil
    (List.append_ne_nil_of_left_ne_nil h.nonempty rest)
  have hfound := Rule.found_first? c cs
  cases hf : Piece.first? c cs with
  | none =>
    rw [hf] at hfound
    exact absurd ⟨rest, htext⟩ (hfound rule w h.matched)
  | some taken =>
    obtain ⟨piece, n⟩ := taken
    rw [hf] at hfound
    obtain ⟨other, rfl, hother⟩ := hfound
    have hsame : w ++ rest = (c :: cs.take n) ++ cs.drop n := by
      rw [htext, List.cons_append, List.take_append_drop]
    obtain ⟨rfl, rfl, rfl⟩ := h.unique hother hsame
    exact ⟨c, cs, n, htext, hf, rfl, rfl⟩

/-! ## Whole texts -/

/-- The scanner reads a text as the reference does. -/
theorem reads_scan (line : Nat) :
    ∀ text : List Char, Reads line text ((scan line text).mapError LexError.cause)
  | [] => by
    rw [scan]
    exact .done
  | c :: cs => by
    have hfound := Rule.found_first? c cs
    cases hf : Piece.first? c cs with
    | none =>
      rw [hf] at hfound
      rw [scan_of_none hf]
      exact .unmatched (List.cons_ne_nil c cs) fun rule w hw hp => absurd hp (hfound rule w hw)
    | some taken =>
      obtain ⟨piece, n⟩ := taken
      rw [hf] at hfound
      obtain ⟨rule, rfl, hlongest⟩ := hfound
      have htext : c :: cs = (c :: cs.take n) ++ cs.drop n := by
        rw [List.cons_append, List.take_append_drop]
      rcases Rule.writes_or_refuses hlongest.matched with ⟨t, ht⟩ | hsilent | ⟨cause, hcause⟩
      · rw [scan_of_token hf (Rule.ofPiece_of_writes hlongest ht line), htext]
        exact .token hlongest ht (reads_scan _ _)
      · rw [scan_skip hf (Rule.ofPiece_of_silent hsilent _ line), htext]
        exact .skip hlongest hsilent (reads_scan _ _)
      · obtain ⟨e, he, hce⟩ := Rule.ofPiece_of_refuses hcause line
        rw [scan_of_error hf he, hce, htext]
        exact .refused hlongest hcause
termination_by text => text.length
decreasing_by all_goals simp only [List.length_drop, List.length_cons]; omega

/-- The reference reads a text in one way. -/
theorem scan_of_reads {line : Nat} {text : List Char}
    {result : Except (LexError.Cause × Nat) (List Located)} (h : Reads line text result) :
    (scan line text).mapError LexError.cause = result := by
  induction h with
  | done =>
    rw [scan]
    rfl
  | @skip line rule w rest result hlongest hsilent _ ih =>
    obtain ⟨c, cs, n, htext, hf, rfl, rfl⟩ := first?_of_longest hlongest
    rw [htext, scan_skip hf (Rule.ofPiece_of_silent hsilent _ line), ih]
  | @token line rule w rest t result hlongest ht _ ih =>
    obtain ⟨c, cs, n, htext, hf, rfl, rfl⟩ := first?_of_longest hlongest
    rw [htext, scan_of_token hf (Rule.ofPiece_of_writes hlongest ht line), ih]
  | @refused line rule w rest cause hlongest hcause =>
    obtain ⟨c, cs, n, htext, hf, rfl, rfl⟩ := first?_of_longest hlongest
    obtain ⟨e, he, hce⟩ := Rule.ofPiece_of_refuses hcause line
    rw [htext, scan_of_error hf he, hce]
  | @unmatched line text hne hnone =>
    obtain ⟨c, cs, rfl⟩ := List.exists_cons_of_ne_nil hne
    cases hf : Piece.first? c cs with
    | none => exact scan_of_none hf
    | some taken =>
      obtain ⟨piece, n⟩ := taken
      have hfound := Rule.found_first? c cs
      rw [hf] at hfound
      obtain ⟨rule, -, hlongest⟩ := hfound
      have hle : c :: cs.take n <+: c :: cs :=
        List.cons_prefix_cons.2 ⟨rfl, List.take_prefix n cs⟩
      exact absurd (hnone rule _ hlongest.matched hle) hlongest.nonempty

end Token

/-- Every source text is read as the reference reads it: its tokens and their lines are those of the
longest pieces, and it has none for the reference's reason and on the reference's line. -/
theorem tokenize_reads (source : String)
    (result : Except (LexError.Cause × Nat) (List Located)) :
    (Token.tokenize source).mapError LexError.cause = result ↔ Reads 1 source.toList result := by
  constructor
  · rintro rfl
    exact Token.reads_scan 1 source.toList
  · intro h
    exact Token.scan_of_reads h

end SmallJava
