/-
Tokens written as source text. A written token is taken back off the front of a text by the scanner
if what follows does not go on with it, blanks and line breaks add none, and so tokens in a row are
read back, and a text spells tokens if its parts spell theirs. Main statements: `scan_written`, on
which the rules for `Spells` rest, and `tokenize_spaced`.
-/
import SmallJava.Proofs.Double.ReadBack
import SmallJava.Proofs.Token.Lexical

namespace SmallJava

/-! ## Written tokens -/

namespace Token

/-- The token as it is written in a source text. -/
def written : Token → List Char
  | number x => x.text.toList
  | text s => Text.Quoted.quote s.toList
  | keyword k => k.spelling.toList
  | name n => n.toList
  | symbol s => [s.char]

/-- The text goes on neither with a word nor with a number. -/
def Ends (rest : List Char) : Prop :=
  ∀ c cs, rest = c :: cs → Piece.isNameRest c = false ∧
    (c = '.' → ∀ d ds, cs = d :: ds → d.isDigit = false)

/-- The text does not go on with the given token. -/
def EndsBefore (rest : List Char) : Token → Prop
  | symbol .slash => ∀ c cs, rest = c :: cs → c ≠ '/' ∧ c ≠ '*'
  | symbol _ => True
  | text _ => True
  | _ => Ends rest

theorem Ends.nil : Ends [] := fun _ _ h => by cases h

/-- A character that no word and no number can go on with. -/
theorem Ends.cons {c : Char} (hc : Piece.isNameRest c = false) (hd : c ≠ '.') (cs : List Char) :
    Ends (c :: cs) := by
  intro c' cs' h
  cases h
  exact ⟨hc, fun h => absurd h hd⟩

theorem scan_piece {c : Char} {cs : List Char} {piece : Piece} {extent line : Nat} {t : Token}
    (hp : Piece.first? c cs = some (piece, extent))
    (ht : ofPiece piece (c :: cs.take extent) line = .ok (some t)) :
    scan line (c :: cs) = (scan (line + (c :: cs.take extent).count '\n') (cs.drop extent)).map
      (⟨t, line⟩ :: ·) := by
  rw [scan, hp]
  simp only [ht]

theorem scan_skip {c : Char} {cs : List Char} {piece : Piece} {extent line : Nat}
    (hp : Piece.first? c cs = some (piece, extent))
    (ht : ofPiece piece (c :: cs.take extent) line = .ok none) :
    scan line (c :: cs) = scan (line + (c :: cs.take extent).count '\n') (cs.drop extent) := by
  rw [scan, hp]
  simp only [ht]

/-- A piece that is followed by the given rest and has no line feed in it. -/
theorem scan_piece_append {c : Char} {ws rest : List Char} (piece : Piece) {line : Nat} {t : Token}
    (hp : Piece.first? c (ws ++ rest) = some (piece, ws.length))
    (ht : ofPiece piece (c :: ws) line = .ok (some t)) (hn : '\n' ∉ c :: ws) :
    scan line (c :: (ws ++ rest)) = (scan line rest).map (⟨t, line⟩ :: ·) := by
  have h : scan line (c :: (ws ++ rest)) = _ := scan_piece hp (by rw [List.take_left' rfl]; exact ht)
  rw [List.take_left' rfl, List.drop_left' rfl, List.count_eq_zero.2 hn] at h
  exact h

/-! ## Words -/

theorem isDigit_of_isNameStart {c : Char} (h : Piece.isNameStart c = true) : c.isDigit = false := by
  simp only [Piece.isNameStart, Bool.or_eq_true, decide_eq_true_eq] at h
  rcases h with (h | rfl) | rfl
  · -- letters start at 65, and digits end at 57
    have hletter : 65 ≤ c.val.toNat := by
      rcases Bool.or_eq_true_iff.1 h with h | h
      · have hrange := of_decide_eq_true h
        exact UInt32.le_iff_toNat_le.1 hrange.1
      · have hlow := of_decide_eq_true (Bool.and_eq_true_iff.1 h).1
        exact Nat.le_trans (by decide) (UInt32.le_iff_toNat_le.1 hlow)
    have hdigit : ¬ c.val ≤ '9'.val := fun hd => by
      have hle : c.val.toNat ≤ 57 := UInt32.le_iff_toNat_le.1 hd
      omega
    exact Bool.and_eq_false_iff.2 (Or.inr (decide_eq_false hdigit))
  · rfl
  · rfl

theorem takeWhile_ends {p : Char → Bool} {ws rest : List Char} (hw : ∀ x ∈ ws, p x = true)
    (hr : ∀ c cs, rest = c :: cs → p c = false) : (ws ++ rest).takeWhile p = ws := by
  rw [List.takeWhile_append_of_pos hw]
  cases rest with
  | nil => rw [List.takeWhile_nil, List.append_nil]
  | cons c cs => rw [List.takeWhile_cons, hr c cs rfl]; exact List.append_nil ws

theorem scan_word {c : Char} {ws : List Char} (hc : Piece.isNameStart c = true)
    (hw : ∀ x ∈ ws, Piece.isNameRest x = true) {rest : List Char} (hr : Ends rest) (line : Nat) :
    scan line (c :: (ws ++ rest)) = (scan line rest).map (⟨ofWord (c :: ws), line⟩ :: ·) := by
  refine scan_piece_append .word ?_ rfl ?_
  · have htake := takeWhile_ends hw fun d ds hd => (hr d ds hd).1
    unfold Piece.first?
    rw [isDigit_of_isNameStart hc, hc, htake]
    rfl
  · intro hn
    rcases List.mem_cons.1 hn with rfl | hn
    · cases hc
    · cases hw _ hn

/-! ## Numbers -/

theorem isNameRest_of_isDigit {c : Char} (h : c.isDigit = true) : Piece.isNameRest c = true := by
  rw [Piece.isNameRest, h, Bool.or_true]

theorem Ends.isDigit {rest : List Char} (hr : Ends rest) (c : Char) (cs : List Char)
    (h : rest = c :: cs) : c.isDigit = false := by
  cases hd : c.isDigit
  · rfl
  · exact absurd (isNameRest_of_isDigit hd) (by rw [(hr c cs h).1]; decide)

theorem digitsExtent_append {ws rest : List Char} (hw : ∀ x ∈ ws, x.isDigit = true)
    (hr : ∀ c cs, rest = c :: cs → c.isDigit = false) :
    Piece.digitsExtent (ws ++ rest) = ws.length := by
  rw [Piece.digitsExtent, takeWhile_ends hw hr]

theorem fractionExtent_ends {rest : List Char} (hr : Ends rest) : Piece.fractionExtent rest = 0 := by
  unfold Piece.fractionExtent
  split
  · rename_i cs
    rw [if_pos]
    have h : Piece.digitsExtent ([] ++ cs) = 0 :=
      digitsExtent_append (fun _ h => absurd h List.not_mem_nil) ((hr _ _ rfl).2 rfl)
    exact h
  · rfl

theorem exponentExtent_ends {rest : List Char} (hr : Ends rest) : Piece.exponentExtent rest = 0 := by
  unfold Piece.exponentExtent
  split
  · rename_i c cs
    rw [if_neg]
    rintro (rfl | rfl)
    · cases (hr _ _ rfl).1
    · cases (hr _ _ rfl).1
  · rfl

/-- All of a number is taken, its fraction included. -/
theorem numberExtent_pointed {ws fraction rest : List Char} (hw : ∀ x ∈ ws, x.isDigit = true)
    (hf : ∀ x ∈ fraction, x.isDigit = true) (hr : Ends rest) :
    Piece.numberExtent (ws ++ Numeral.pointed fraction ++ rest) =
      (ws ++ Numeral.pointed fraction).length := by
  have hwhole : Piece.digitsExtent (ws ++ (Numeral.pointed fraction ++ rest)) = ws.length := by
    refine digitsExtent_append hw fun c cs h => ?_
    cases fraction with
    | nil => exact hr.isDigit c cs h
    | cons d ds => cases h; rfl
  have hfraction : Piece.fractionExtent (Numeral.pointed fraction ++ rest) =
      (Numeral.pointed fraction).length := by
    cases fraction with
    | nil => exact fractionExtent_ends hr
    | cons d ds =>
      have hd : Piece.digitsExtent (d :: ds ++ rest) = (d :: ds).length :=
        digitsExtent_append hf hr.isDigit
      show (if Piece.digitsExtent (d :: ds ++ rest) = 0 then 0 else
        1 + Piece.digitsExtent (d :: ds ++ rest)) = _
      rw [hd, if_neg (by simp), Numeral.pointed, List.length_cons, Nat.add_comm]
      rfl
  unfold Piece.numberExtent
  dsimp only
  rw [List.append_assoc, hwhole, List.drop_left' rfl, hfraction, ← List.append_assoc,
    List.drop_left' (by rw [List.length_append]), exponentExtent_ends hr, Nat.add_zero,
    List.length_append]

theorem not_mem_of_isDigit {ws : List Char} (hw : ∀ x ∈ ws, x.isDigit = true) : '\n' ∉ ws :=
  fun h => by cases hw _ h

theorem scan_number {x : Double} (hx : x.Plain) {rest : List Char} (hr : Ends rest) (line : Nat) :
    scan line (x.text.toList ++ rest) = (scan line rest).map (⟨number x, line⟩ :: ·) := by
  obtain ⟨units, h, rfl⟩ := hx
  have hread := Double.ofNumeral?_text h
  obtain ⟨whole, fraction, h1, h2, h3, h4, -⟩ := (Double.shortest units).positional_eq
  have htext : (Double.text (.finite false units h)).toList = whole ++ Numeral.pointed fraction := by
    rw [Double.text, String.toList_ofList]
    exact h4
  rw [htext] at hread ⊢
  -- the extent of the piece is that of the printed digits, so exactly they are read back
  cases whole with
  | nil => exact absurd rfl h1
  | cons c ws =>
    have hc : c.isDigit = true := h2 c (List.mem_cons_self ..)
    have hw : ∀ x ∈ ws, x.isDigit = true := fun x hx => h2 x (List.mem_cons_of_mem _ hx)
    rw [List.cons_append, List.cons_append]
    refine scan_piece_append .number ?_ ?_ ?_
    · unfold Piece.first?
      rw [hc, numberExtent_pointed hw h3 hr]
      rfl
    · have hnumber : ofNumber? (c :: (ws ++ Numeral.pointed fraction)) =
          some (number (.finite false units h)) := by
        rw [ofNumber?, ← List.cons_append, hread]
        rfl
      simp only [ofPiece, hnumber]
    · intro hn
      rcases List.mem_append.1 (show '\n' ∈ (c :: ws) ++ Numeral.pointed fraction from hn) with hn | hn
      · exact not_mem_of_isDigit h2 hn
      · cases fraction with
        | nil => cases hn
        | cons d ds =>
          rcases List.mem_cons.1 hn with hn | hn
          · cases hn
          · exact not_mem_of_isDigit h3 hn

/-! ## Quoted texts -/

theorem quotedExtent?_encode (s rest : List Char) :
    Piece.quotedExtent? (Text.Quoted.encode s ++ '"' :: rest) =
      some ((Text.Quoted.encode s).length + 1) := by
  induction s with
  | nil => rw [Text.Quoted.encode, List.nil_append, Piece.quotedExtent?.eq_def]; rfl
  | cons c cs ih =>
    unfold Text.Quoted.encode
    split
    · -- an escape is passed over as a whole
      rename_i e he
      have hne : e ≠ '\n' := by
        unfold Text.Quoted.escape? at he
        split at he <;> cases he <;> decide
      rw [List.cons_append, List.cons_append, Piece.quotedExtent?, if_neg (by decide),
        if_neg (by decide), if_pos rfl]
      simp only [if_neg hne, ih, Option.map_some, List.length_cons]
    · rename_i he
      have hc : c ≠ '"' ∧ c ≠ '\n' ∧ c ≠ '\\' := by
        refine ⟨?_, ?_, ?_⟩ <;> rintro rfl <;> cases he
      rw [List.cons_append, Piece.quotedExtent?.eq_def]
      simp only [if_neg hc.1, if_neg hc.2.1, if_neg hc.2.2, ih, Option.map_some, List.length_cons]

theorem not_mem_encode (s : List Char) : '\n' ∉ Text.Quoted.encode s := by
  induction s with
  | nil => exact List.not_mem_nil
  | cons c cs ih =>
    unfold Text.Quoted.encode
    split
    · rename_i e he
      intro hn
      rcases List.mem_cons.1 hn with hn | hn
      · cases hn
      · rcases List.mem_cons.1 hn with rfl | hn
        · unfold Text.Quoted.escape? at he
          split at he <;> cases he
        · exact ih hn
    · rename_i he
      intro hn
      rcases List.mem_cons.1 hn with rfl | hn
      · cases he
      · exact ih hn

theorem scan_quoted (s : String) (rest : List Char) (line : Nat) :
    scan line (Text.Quoted.quote s.toList ++ rest) =
      (scan line rest).map (⟨text s, line⟩ :: ·) := by
  rw [Text.Quoted.quote, List.cons_append]
  refine scan_piece_append .quoted ?_ ?_ ?_
  · show (Piece.quotedExtent? _).map _ = _
    rw [List.append_assoc, List.singleton_append, quotedExtent?_encode, List.length_append]
    rfl
  · have h : Text.Quoted.unquote? ('"' :: (Text.Quoted.encode s.toList ++ ['"'])) = some s.toList :=
      Text.Quoted.unquote?_quote s.toList
    simp only [ofPiece, h, String.ofList_toList]
  · intro hn
    rcases List.mem_cons.1 hn with hn | hn
    · cases hn
    · rcases List.mem_append.1 hn with hn | hn
      · exact not_mem_encode _ hn
      · cases List.mem_singleton.1 hn

/-! ## Symbols -/

theorem scan_single {c : Char} {rest : List Char} {s : Symbol} {line : Nat}
    (hp : Piece.first? c rest = some (.symbol, 0)) (hs : Symbol.ofChar? c = some s)
    (hn : c ≠ '\n') : scan line (c :: rest) = (scan line rest).map (⟨symbol s, line⟩ :: ·) := by
  show scan line (c :: ([] ++ rest)) = _
  refine scan_piece_append .symbol hp ?_ ?_
  · simp only [ofPiece, ofSymbol?, hs, Option.map_some]
  · intro h
    exact hn (List.mem_singleton.1 h).symm

/-- A slash alone is a symbol; with another slash or a star it starts a comment. -/
theorem first?_slash {rest : List Char} (hr : ∀ c cs, rest = c :: cs → c ≠ '/' ∧ c ≠ '*') :
    Piece.first? '/' rest = some (.symbol, 0) := by
  rcases rest with _ | ⟨c, cs⟩
  · rfl
  · obtain ⟨h1, h2⟩ := hr c cs rfl
    unfold Piece.first?
    rw [if_neg (by decide), if_neg (by decide), if_neg (by decide), if_neg (by decide)]
    split
    · rename_i heq; exact absurd heq (by decide)
    · rename_i heq _; exact absurd heq (by decide)
    · rename_i heq; cases heq; exact absurd rfl h1
    · rename_i heq; cases heq; exact absurd rfl h2
    · rfl

theorem first?_char {s : Symbol} (hs : s ≠ .slash) (rest : List Char) :
    Piece.first? s.char rest = some (.symbol, 0) := by
  cases s with
  | slash => exact absurd rfl hs
  | _ => rfl

theorem scan_symbol {s : Symbol} {rest : List Char} (hr : EndsBefore rest (symbol s)) (line : Nat) :
    scan line (s.char :: rest) = (scan line rest).map (⟨symbol s, line⟩ :: ·) := by
  have hn : s.char ≠ '\n' := by cases s <;> decide
  by_cases hs : s = .slash
  · subst hs
    exact scan_single (first?_slash hr) (Symbol.ofChar?_char _) hn
  · exact scan_single (first?_char hs rest) (Symbol.ofChar?_char s) hn

/-! ## Any token -/

theorem ofWord_spelling (k : Keyword) : ofWord k.spelling.toList = keyword k := by
  unfold ofWord
  simp only [String.ofList_toList, Keyword.ofSpelling?_spelling]

theorem spelling_letters (k : Keyword) : ∃ c cs, k.spelling.toList = c :: cs ∧
    Piece.isNameStart c = true ∧ ∀ x ∈ cs, Piece.isNameRest x = true := by
  cases k <;> exact ⟨_, _, rfl, rfl, List.all_eq_true.1 rfl⟩

theorem scan_letters {w : String} (hw : ∃ c cs, w.toList = c :: cs ∧ Piece.isNameStart c = true ∧
    ∀ x ∈ cs, Piece.isNameRest x = true) {rest : List Char} (hr : Ends rest) (line : Nat) :
    scan line (w.toList ++ rest) = (scan line rest).map (⟨ofWord w.toList, line⟩ :: ·) := by
  obtain ⟨c, cs, h, hc, hcs⟩ := hw
  rw [h, List.cons_append]
  exact scan_word hc hcs hr line

/-- A written token is taken back off the front of a text that does not go on with it. -/
theorem scan_written {t : Token} (ht : t.Lexical) {rest : List Char} (hr : EndsBefore rest t)
    (line : Nat) : scan line (t.written ++ rest) = (scan line rest).map (⟨t, line⟩ :: ·) := by
  cases t with
  | number x => exact scan_number ht hr line
  | text s => exact scan_quoted s rest line
  | keyword k =>
    rw [written, scan_letters (spelling_letters k) hr, ofWord_spelling]
  | name n =>
    have hn : ofWord n.toList = name n := by
      unfold ofWord
      simp only [String.ofList_toList, ht.free]
    rw [written, scan_letters ht.letters hr, hn]
  | symbol s => exact scan_symbol hr line

/-! ## Blanks and line breaks -/

theorem first?_blank {c : Char} (hc : Piece.isBlank c = true) (cs : List Char) :
    Piece.first? c cs = some (.blanks, (cs.takeWhile Piece.isBlank).length) := by
  simp only [Piece.isBlank, Bool.or_eq_true, decide_eq_true_eq] at hc
  rcases hc with (rfl | rfl) | rfl <;> rfl

theorem count_lineFeed_blanks (cs : List Char) : (cs.takeWhile Piece.isBlank).count '\n' = 0 :=
  List.count_eq_zero.2 fun h => by cases List.mem_takeWhile_imp h

theorem scan_blanks {c : Char} (hc : Piece.isBlank c = true) (line : Nat) (cs : List Char) :
    scan line (c :: cs) = scan line (cs.dropWhile Piece.isBlank) := by
  have hne : c ≠ '\n' := by rintro rfl; cases hc
  rw [scan_skip (first?_blank hc cs) rfl, take_takeWhile_length, drop_takeWhile_length,
    List.count_cons_of_ne hne, count_lineFeed_blanks]
  rfl

/-- A blank leaves no token and no trace. -/
theorem scan_blank (line : Nat) (rest : List Char) : scan line (' ' :: rest) = scan line rest := by
  -- the blanks after it belong to the same piece
  rw [scan_blanks rfl]
  rcases rest with _ | ⟨c, cs⟩
  · rfl
  · rw [List.dropWhile_cons]
    split
    · rename_i hc; rw [scan_blanks hc]
    · rfl

theorem scan_lineFeed (line : Nat) (rest : List Char) :
    scan line ('\n' :: rest) = scan (line + 1) rest :=
  scan_skip (show Piece.first? '\n' rest = some (.lineBreak, 0) from rfl) rfl

/-! ## Tokens in a row -/

/-- The tokens as source text, with a blank between any two of them. -/
def spaced (ts : List Token) : String :=
  String.intercalate " " (ts.map fun t => .ofList t.written)

theorem endsBefore_nil (t : Token) : EndsBefore [] t := by
  cases t with
  | symbol s =>
    cases s with
    | slash => intro c cs h; cases h
    | _ => trivial
  | text s => trivial
  | _ => exact Ends.nil

/-- No token goes on over a blank. -/
theorem endsBefore_blank (t : Token) (rest : List Char) : EndsBefore (' ' :: rest) t := by
  cases t with
  | symbol s =>
    cases s with
    | slash => rintro c cs ⟨⟩; exact ⟨by decide, by decide⟩
    | _ => trivial
  | text s => trivial
  | _ => exact Ends.cons rfl (by decide) rest

theorem toList_spaced_cons (t : Token) {ts : List Token} (h : ts ≠ []) :
    (spaced (t :: ts)).toList = t.written ++ ' ' :: (spaced ts).toList := by
  rw [spaced, List.map_cons, String.intercalate_cons_of_ne_nil (by simpa using h)]
  simp [spaced]

/-- Lexical tokens in a row are scanned one by one, all on the line they start on. -/
theorem scan_spaced (line : Nat) {ts : List Token} (h : ∀ t ∈ ts, t.Lexical) :
    scan line (spaced ts).toList = .ok (ts.map (⟨·, line⟩)) := by
  induction ts with
  | nil => exact scan.eq_1 line
  | cons t ts ih =>
    obtain ⟨ht, hts⟩ := List.forall_mem_cons.1 h
    by_cases hne : ts = []
    · subst hne
      have hlone : (spaced [t]).toList = t.written ++ [] := by simp [spaced]
      rw [hlone, scan_written ht (endsBefore_nil t), scan]
      rfl
    · rw [toList_spaced_cons t hne, scan_written ht (endsBefore_blank t _), scan_blank, ih hts]
      rfl

/-- Tokens can be written in a row, on one line, and are read back from it exactly if each of them is
lexical; and whatever characters a text has, its quoted form is decoded as the text. -/
theorem tokenize_spaced (ts : List Token) :
    (tokenize (spaced ts) = .ok (ts.map (⟨·, 1⟩)) ↔ ∀ t ∈ ts, t.Lexical) ∧
      ∀ s : String, Text.Quoted.unquote? (Text.Quoted.quote s.toList) = some s.toList := by
  refine ⟨⟨fun h t ht => ?_, scan_spaced 1⟩, fun s => Text.Quoted.unquote?_quote s.toList⟩
  exact tokenize_lexical h ⟨t, 1⟩ (List.mem_map.2 ⟨t, ht, rfl⟩)

-- a slash and a star with a blank between them open no comment
example : tokenize (spaced [.symbol .slash, .symbol .star, .text "a\\\n\"\u0007", .name "nullx"]) =
    .ok [⟨.symbol .slash, 1⟩, ⟨.symbol .star, 1⟩, ⟨.text "a\\\n\"\u0007", 1⟩, ⟨.name "nullx", 1⟩] := by
  decide +kernel

end Token

/-! ## Spelling -/

/-- Wherever it stands before an end, the text is scanned as the given tokens. -/
def Spells (cs : List Char) (ts : List Token) : Prop :=
  ∀ line rest, Token.Ends rest → ∃ (toks : List Located) (line' : Nat), toks.map (·.token) = ts ∧
    Token.scan line (cs ++ rest) = (Token.scan line' rest).map (toks ++ ·)

namespace Spells

open Token

variable {cs ds : List Char} {ts us : List Token}

theorem map_append_map {ε : Type} (r : Except ε (List Located)) (ts us : List Located) :
    (r.map (us ++ ·)).map (ts ++ ·) = r.map ((ts ++ us) ++ ·) := by
  cases r with
  | error e => rfl
  | ok toks => exact congrArg Except.ok (List.append_assoc ts us toks).symm

theorem nil : Spells [] [] := fun line rest _ => by
  refine ⟨[], line, rfl, ?_⟩
  rw [List.nil_append]
  cases scan line rest <;> rfl

/-- One text after another, if the second goes on with no word and no number. -/
theorem append (h : Spells cs ts) (h' : Spells ds us) (hd : ∀ rest, Ends rest → Ends (ds ++ rest)) :
    Spells (cs ++ ds) (ts ++ us) := by
  intro line rest hr
  obtain ⟨toks, line', rfl, h1⟩ := h line (ds ++ rest) (hd rest hr)
  obtain ⟨toks', line'', rfl, h2⟩ := h' line' rest hr
  exact ⟨toks ++ toks', line'', List.map_append,
    by rw [List.append_assoc, h1, h2, map_append_map]⟩

theorem token {t : Token} (ht : t.Lexical) (hd : ∀ rest, Ends rest → EndsBefore (ds ++ rest) t)
    (h : Spells ds us) : Spells (t.written ++ ds) (t :: us) := by
  intro line rest hr
  obtain ⟨toks, line', rfl, h1⟩ := h line rest hr
  refine ⟨⟨t, line⟩ :: toks, line', rfl, ?_⟩
  rw [List.append_assoc, scan_written ht (hd rest hr), h1]
  exact map_append_map _ [⟨t, line⟩] toks

theorem symbol {s : Symbol} (hs : s ≠ .slash) (h : Spells ds us) :
    Spells (s.char :: ds) (.symbol s :: us) := by
  refine token (t := .symbol s) trivial (fun rest _ => ?_) h
  cases s with
  | slash => exact absurd rfl hs
  | _ => trivial

theorem blank (h : Spells ds us) : Spells (' ' :: ds) us := by
  intro line rest hr
  obtain ⟨toks, line', h1, h2⟩ := h line rest hr
  exact ⟨toks, line', h1, by rw [List.cons_append, scan_blank, h2]⟩

theorem lineFeed (h : Spells ds us) : Spells ('\n' :: ds) us := by
  intro line rest hr
  obtain ⟨toks, line', h1, h2⟩ := h (line + 1) rest hr
  exact ⟨toks, line', h1, by rw [List.cons_append, scan_lineFeed, h2]⟩

/-- A lone token. -/
theorem single {t : Token} (ht : t.Lexical) (hd : ∀ rest, Ends rest → EndsBefore rest t) :
    Spells t.written [t] := by
  have h : Spells (t.written ++ []) [t] := token ht hd nil
  rwa [List.append_nil] at h

/-- A name, a number or a keyword before a blank or a symbol. -/
theorem word {t : Token} (ht : t.Lexical) (hw : ∀ s, t ≠ .symbol s)
    (hd : ∀ rest, Ends rest → Ends (ds ++ rest)) (h : Spells ds us) :
    Spells (t.written ++ ds) (t :: us) := by
  refine token ht (fun rest hr => ?_) h
  cases t with
  | symbol s => exact absurd rfl (hw s)
  | text s => trivial
  | _ => exact hd rest hr

/-- A text that spells tokens has those tokens. -/
theorem tokenize {source : String} (h : Spells source.toList ts) :
    ∃ toks, Token.tokenize source = .ok toks ∧ toks.map (·.token) = ts := by
  obtain ⟨toks, line, h1, h2⟩ := h 1 [] .nil
  rw [List.append_nil, scan] at h2
  exact ⟨toks, by rw [Token.tokenize, h2]; exact congrArg Except.ok (List.append_nil toks), h1⟩

end Spells

end SmallJava
