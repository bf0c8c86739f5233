/-
Texts one below another. No rule but those of block comments and line breaks goes on over a line
feed, so what the scanner takes off a text it takes off the text before a line feed as well; the one
exception is a slash before a star, which a comment that is closed further down can begin with. Main
statement: `tokenize_append_lineFeed`.
-/
import SmallJava.Proofs.Token.Agreement
import SmallJava.Proofs.Token.Lines

namespace SmallJava

open Computability

/-! ## Words with line feeds -/

namespace Pattern

variable {p : Char → Bool} {l m : Language Char}

/-- No word of the set has a line feed. -/
def OnOneLine (l : Language Char) : Prop := ∀ w ∈ l, '\n' ∉ w

theorem onOneLine_one (h : p '\n' = false) : OnOneLine (one p) := by
  rintro w ⟨c, hc, rfl⟩ hn
  rw [← List.mem_singleton.1 hn, h] at hc
  cases hc

theorem onOneLine_exactly {text : List Char} (h : '\n' ∉ text) : OnOneLine (exactly text) := by
  intro w hw
  rwa [mem_exactly.1 hw]

theorem OnOneLine.mul (hl : OnOneLine l) (hm : OnOneLine m) : OnOneLine (l * m) := by
  intro w hw hn
  obtain ⟨a, ha, b, hb, rfl⟩ := Language.mem_mul.1 hw
  rcases List.mem_append.1 hn with hn | hn
  · exact hl a ha hn
  · exact hm b hb hn

theorem OnOneLine.add (hl : OnOneLine l) (hm : OnOneLine m) : OnOneLine (l + m) := by
  intro w hw
  rcases (Language.mem_add l m w).1 hw with hw | hw
  · exact hl w hw
  · exact hm w hw

theorem OnOneLine.kstar (hl : OnOneLine l) : OnOneLine l∗ := by
  intro w hw hn
  obtain ⟨pieces, rfl, hpieces⟩ := Language.mem_kstar.1 hw
  obtain ⟨piece, hp, hn⟩ := List.mem_flatten.1 hn
  exact hl piece (hpieces piece hp) hn

theorem OnOneLine.plus (hl : OnOneLine l) : OnOneLine (plus l) := hl.mul hl.kstar

theorem OnOneLine.opt (hl : OnOneLine l) : OnOneLine (opt l) := by
  intro w hw
  rcases mem_opt.1 hw with rfl | hw
  · exact List.not_mem_nil
  · exact hl w hw

end Pattern

namespace Rule

open Pattern

variable {rule : Rule} {w rest : List Char}

/-- Only block comments and line breaks have line feeds. -/
theorem onOneLine_pattern (hcomment : rule ≠ blockComment) (hbreak : rule ≠ lineBreak) :
    OnOneLine rule.pattern := by
  have hdigits : OnOneLine (plus (one Char.isDigit)) := (onOneLine_one rfl).plus
  cases rule with
  | number =>
    have hfraction : OnOneLine fraction := (onOneLine_exactly (by decide)).mul hdigits
    have hexponent : OnOneLine exponent :=
      (onOneLine_one rfl).mul ((onOneLine_one rfl).opt.mul hdigits)
    exact hdigits.mul (hfraction.opt.mul hexponent.opt)
  | quoted =>
    have hescape : OnOneLine (exactly ['\\'] * one (· != '\n')) :=
      (onOneLine_exactly (by decide)).mul (onOneLine_one rfl)
    exact (onOneLine_exactly (by decide)).mul
      (((onOneLine_one rfl).add hescape).kstar.mul (onOneLine_exactly (by decide)))
  | keyword k => exact onOneLine_exactly (by cases k <;> decide)
  | word => exact (onOneLine_one rfl).mul (onOneLine_one rfl).kstar
  | lineComment => exact (onOneLine_exactly (by decide)).mul (onOneLine_one rfl).kstar
  | blockComment => exact absurd rfl hcomment
  | symbol s => exact onOneLine_exactly (by cases s <;> decide)
  | lineBreak => exact absurd rfl hbreak
  | blanks => exact (onOneLine_one rfl).plus

/-! ## Pieces before a line feed -/

/-- A block comment is no longer than any that it starts with. -/
theorem eq_nil_of_blockComment {more : List Char} (hw : w ∈ blockComment.pattern)
    (hmore : w ++ more ∈ blockComment.pattern) : more = [] := by
  obtain ⟨v, hv, rfl⟩ := mem_exactly_mul.1 hw
  obtain ⟨u, hu, h⟩ := mem_exactly_mul.1 hmore
  rw [List.append_assoc] at h
  obtain rfl := List.append_cancel_left h
  -- it ends where it is closed first, whatever follows
  have hclose := closeExtent?_append (mem_commentRest.1 hv) more
  rw [mem_commentRest.1 hu, List.length_append] at hclose
  exact List.length_eq_zero_iff.1 (by simpa using hclose)

/-- The piece is a slash, and a star follows it. -/
def SlashStar (w rest : List Char) : Prop := w = ['/'] ∧ ∃ more, rest = '*' :: more

/-- A longest piece with a line feed behind it is the start of no line break: it would be a lone
carriage return, and that is no piece. -/
theorem Longest.not_mem_lineBreak (h : rule.Longest w rest) (more : List Char) :
    w ++ rest ++ '\n' :: more ∉ lineBreak.pattern := by
  intro hv
  obtain ⟨c, cs, rfl⟩ := List.exists_cons_of_ne_nil h.nonempty
  rcases mem_lineBreak.1 hv with hv | hv
  · simp at hv
  · rw [List.cons_append, List.cons_append] at hv
    obtain ⟨rfl, hv⟩ := List.cons.inj hv
    have hlength := congrArg List.length hv
    simp only [List.length_append, List.length_cons, List.length_nil] at hlength
    obtain rfl : cs = [] := List.length_eq_zero_iff.1 (by omega)
    have hstart := start_of_isPrefix h.matched List.prefix_rfl
    obtain rfl : rule = lineBreak := of_start_lineEnd (Option.some.inj hstart).symm
    rcases mem_lineBreak.1 h.matched with h | h <;> cases h

/-- A longest piece with a line feed behind it is the start of no block comment, unless it is a slash
before a star: line comments start otherwise, and a block comment is closed already. -/
theorem Longest.not_mem_blockComment (h : rule.Longest w rest) (hstar : ¬ SlashStar w rest)
    (more : List Char) : w ++ rest ++ '\n' :: more ∉ blockComment.pattern := by
  intro hv
  obtain ⟨c, cs, rfl⟩ := List.exists_cons_of_ne_nil h.nonempty
  obtain ⟨v, -, hsplit⟩ := mem_exactly_mul.1 hv
  rw [List.cons_append, List.cons_append] at hsplit
  obtain ⟨rfl, hsplit⟩ := List.cons.inj hsplit
  have hstart := start_of_isPrefix h.matched List.prefix_rfl
  rcases of_start_sign (Option.some.inj hstart).symm with rfl | ⟨-, rfl | rfl⟩
  · -- a slash alone, with the star behind it
    obtain rfl : cs = [] := (List.cons.inj (mem_exactly.1 h.matched)).2
    cases rest with
    | nil => cases hsplit
    | cons d ds =>
      obtain ⟨-, hsplit⟩ := List.cons.inj hsplit
      obtain ⟨rfl, -⟩ := List.cons.inj hsplit
      exact hstar ⟨rfl, ds, rfl⟩
  · obtain ⟨u, -, hu⟩ := mem_exactly_mul.1 h.matched
    cases hu
    cases hsplit
  · rw [List.append_assoc] at hv
    have hnil := eq_nil_of_blockComment h.matched hv
    simp at hnil

/-- Nothing that starts with a longest piece goes on over a line feed behind the text, unless the piece
is a slash before a star. -/
theorem Longest.not_mem_of_lineFeed (h : rule.Longest w rest) (hstar : ¬ SlashStar w rest)
    (other : Rule) (more : List Char) : w ++ rest ++ '\n' :: more ∉ other.pattern := by
  by_cases hbreak : other = lineBreak
  · rw [hbreak]
    exact h.not_mem_lineBreak more
  · by_cases hcomment : other = blockComment
    · rw [hcomment]
      exact h.not_mem_blockComment hstar more
    · exact fun hv => onOneLine_pattern hcomment hbreak _ hv (by simp)

/-- A longest piece remains one before a line feed and any other text, unless it is a slash before a
star. -/
theorem Longest.append_lineFeed (h : rule.Longest w rest) (hstar : ¬ SlashStar w rest)
    (more : List Char) : rule.Longest w (rest ++ '\n' :: more) where
  matched := h.matched
  nonempty := h.nonempty
  longest other v hv hp := by
    rw [← List.append_assoc] at hp
    rcases List.prefix_or_prefix_of_prefix hp (List.prefix_append _ _) with hshort | ⟨t, rfl⟩
    · exact h.longest other v hv hshort
    · cases t with
      | nil => exact h.longest other _ hv (by simp)
      | cons d ds =>
        obtain ⟨rfl, -⟩ := List.cons_prefix_cons.1 ((List.prefix_append_right_inj _).1 hp)
        exact absurd hv (h.not_mem_of_lineFeed hstar other ds)
  keyword := h.keyword

end Rule

/-! ## Texts cut into pieces -/

namespace Piece

/-- The pieces that a text falls into, each with what is written there, up to where none starts. -/
def cut : List Char → List (Piece × List Char)
  | [] => []
  | c :: cs =>
    match first? c cs with
    | none => []
    | some (piece, n) => (piece, c :: cs.take n) :: cut (cs.drop n)
termination_by text => text.length
decreasing_by simp only [List.length_drop, List.length_cons]; omega

/-- A comment is left open: among the pieces of the text is a slash, and the next one is a star. -/
def OpensComment (text : List Char) : Prop :=
  [(symbol, ['/']), (symbol, ['*'])] <:+: cut text

instance (text : List Char) : Decidable (OpensComment text) :=
  inferInstanceAs (Decidable (_ <:+: _))

theorem cut_of_first? {c : Char} {cs : List Char} {piece : Piece} {n : Nat}
    (h : first? c cs = some (piece, n)) :
    cut (c :: cs) = (piece, c :: cs.take n) :: cut (cs.drop n) := by
  rw [cut, h]

end Piece

namespace Rule

variable {rule : Rule} {w rest : List Char}

theorem Longest.cut_append (h : rule.Longest w rest) :
    Piece.cut (w ++ rest) = (rule.piece, w) :: Piece.cut rest := by
  obtain ⟨c, cs, n, htext, hf, rfl, rfl⟩ := Token.first?_of_longest h
  rw [htext, Piece.cut_of_first? hf]

theorem Longest.not_slashStar (h : rule.Longest w rest)
    (hclosed : ¬ Piece.OpensComment (w ++ rest)) : ¬ SlashStar w rest := by
  rintro ⟨rfl, more, rfl⟩
  refine hclosed ⟨[], Piece.cut more, ?_⟩
  have hstart := start_of_isPrefix h.matched List.prefix_rfl
  have hrule : rule = symbol .slash := by
    rcases of_start_sign (Option.some.inj hstart).symm with h | ⟨-, rfl | rfl⟩
    · exact h
    · obtain ⟨v, -, hv⟩ := Pattern.mem_exactly_mul.1 h.matched
      cases hv
    · obtain ⟨v, -, hv⟩ := Pattern.mem_exactly_mul.1 h.matched
      cases hv
  have hnext : Piece.first? '*' more = some (.symbol, 0) :=
    Token.first?_char (s := .star) (by decide) more
  rw [h.cut_append, hrule, Piece.cut_of_first? hnext]
  rfl

theorem Longest.closed (h : rule.Longest w rest) (hclosed : ¬ Piece.OpensComment (w ++ rest)) :
    ¬ Piece.OpensComment rest := by
  intro hrest
  refine hclosed (hrest.trans ?_)
  rw [h.cut_append]
  exact (List.suffix_cons _ _).isInfix

end Rule

namespace Token

variable {line : Nat} {rule : Rule} {w rest : List Char}

/-! ## Joined texts -/

/-- The scanner takes a longest piece off the text and goes on behind it. -/
theorem scan_longest (h : rule.Longest w rest) (line : Nat) :
    scan line (w ++ rest) =
      match ofPiece rule.piece w line with
      | .error e => .error e
      | .ok none => scan (line + w.count '\n') rest
      | .ok (some t) => (scan (line + w.count '\n') rest).map (⟨t, line⟩ :: ·) := by
  obtain ⟨c, cs, n, htext, hf, rfl, rfl⟩ := first?_of_longest h
  have hscan := scan.eq_2 line c cs
  rw [hf] at hscan
  rw [htext]
  exact hscan

/-- A text that is read as tokens, and leaves no comment open, is read as them before a line feed and
any other text, which is read as if it stood alone further down. -/
theorem scan_append_lineFeed {text : List Char} {result : Except (LexError.Cause × Nat) (List Located)}
    (h : Reads line text result) (hclosed : ¬ Piece.OpensComment text) {toks : List Located}
    (hresult : result = .ok toks) (more : List Char) :
    scan line (text ++ '\n' :: more) =
      (scan (line + text.count '\n' + 1) more).map (toks ++ ·) := by
  induction h generalizing toks with
  | @done line =>
    cases hresult
    rw [List.nil_append, scan_lineFeed, List.count_nil, Nat.add_zero]
    cases scan (line + 1) more <;> rfl
  | @skip line rule w rest result hlongest hsilent _ ih =>
    have hstep := scan_longest (hlongest.append_lineFeed (hlongest.not_slashStar hclosed) more) line
    rw [Rule.ofPiece_of_silent hsilent] at hstep
    rw [List.append_assoc, hstep, List.count_append, ← Nat.add_assoc]
    exact ih (hlongest.closed hclosed) hresult
  | @token line rule w rest t result hlongest ht _ ih =>
    obtain ⟨us, hus, rfl⟩ := map_cons_eq_ok hresult
    have hstep := scan_longest (hlongest.append_lineFeed (hlongest.not_slashStar hclosed) more) line
    rw [Rule.ofPiece_of_writes hlongest ht] at hstep
    rw [List.append_assoc, hstep, List.count_append, ← Nat.add_assoc]
    dsimp only
    rw [ih (hlongest.closed hclosed) hus]
    exact Spells.map_append_map _ [⟨t, line⟩] us
  | refused => cases hresult
  | unmatched => cases hresult

/-- Source texts are read line by line: before a line feed and another text, a text that leaves no
comment open has the tokens it has alone, and after it the other text has its own, or its own
failure, as many lines further down as the first text takes. -/
theorem tokenize_append_lineFeed {source other : String} {toks : List Located}
    (h : tokenize source = .ok toks) (hclosed : ¬ Piece.OpensComment source.toList) :
    tokenize (source ++ "\n" ++ other) =
      match tokenize other with
      | .ok us => .ok (toks ++ us.map (Located.below (source.toList.count '\n' + 1)))
      | .error e => .error (e.below (source.toList.count '\n' + 1)) := by
  have hreads : Reads 1 source.toList (.ok toks) := by
    have := reads_scan 1 source.toList
    rwa [show scan 1 source.toList = .ok toks from h] at this
  have htext : (source ++ "\n" ++ other).toList = source.toList ++ '\n' :: other.toList := by simp
  rw [tokenize, htext, scan_append_lineFeed hreads hclosed rfl, Nat.add_assoc, scan_below]
  change (Except.mapError _ (Except.map _ (tokenize other))).map _ = _
  cases tokenize other <;> rfl

theorem tokenize_append_lineFeed_too_large :
    tokenize "\"a\" / // b /* c" = .ok [⟨.text "a", 1⟩, ⟨.symbol .slash, 1⟩] ∧
      tokenize ("\"a\" / // b /* c" ++ "\n" ++ "*/ x\n1e999") = .error (.tooLarge "1e999" 3) := by
  have h : tokenize "\"a\" / // b /* c" = .ok [⟨.text "a", 1⟩, ⟨.symbol .slash, 1⟩] := by
    decide +kernel
  have hother : tokenize "*/ x\n1e999" = .error (.tooLarge "1e999" 2) := by decide +kernel
  refine ⟨h, ?_⟩
  rw [tokenize_append_lineFeed h (by decide +kernel), hother]
  rfl

end Token

end SmallJava
