/-
Lines of a source text. The tokens of a text stand on the lines that its line feeds make of it, and
moving the text down moves its tokens, or the place where it has none. Main statements:
`scan_below`, `tokenize_line`.
-/
import SmallJava.Proofs.Token.Spelling

namespace SmallJava

/-- The token `k` lines further down. -/
def Located.below (k : Nat) (t : Located) : Located := { t with line := t.line + k }

/-- The failure `k` lines further down. -/
def LexError.below (k : Nat) : LexError → LexError
  | unrecognized slice line => unrecognized slice (line + k)
  | tooLarge slice line => tooLarge slice (line + k)

namespace Token

/-! ## Texts further down -/

theorem ofPiece_below (piece : Piece) (slice : List Char) (line k : Nat) :
    ofPiece piece slice (line + k) = (ofPiece piece slice line).mapError (·.below k) := by
  cases piece with
  | number =>
    simp only [ofPiece]
    cases ofNumber? slice <;> rfl
  | quoted =>
    simp only [ofPiece]
    cases Text.Quoted.unquote? slice <;> rfl
  | symbol =>
    simp only [ofPiece]
    cases ofSymbol? slice <;> rfl
  | _ => rfl

/-- A text `k` lines further down has its tokens there, or fails there. -/
theorem scan_below (k line : Nat) : ∀ text : List Char,
    scan (line + k) text =
      ((scan line text).map (·.map (Located.below k))).mapError (LexError.below k)
  | [] => by
    rw [scan, scan]
    rfl
  | c :: cs => by
    rw [scan, scan]
    cases Piece.first? c cs with
    | none => rfl
    | some taken =>
      obtain ⟨piece, n⟩ := taken
      dsimp only
      rw [ofPiece_below]
      have ih := scan_below k (line + (c :: cs.take n).count '\n') (cs.drop n)
      rw [Nat.add_right_comm] at ih
      cases ofPiece piece (c :: cs.take n) line with
      | error e => rfl
      | ok written =>
        cases written with
        | none => exact ih
        | some t =>
          simp only [Except.mapError]
          rw [ih]
          cases scan (line + (c :: cs.take n).count '\n') (cs.drop n) <;> rfl
termination_by text => text.length
decreasing_by simp only [List.length_drop, List.length_cons]; omega

/-! ## Lines of tokens -/

/-- The number of lines of a text; a line feed at its end starts no other line. -/
def lineCount (text : List Char) : Nat := text.dropLast.count '\n' + 1

theorem lineCount_append (text : List Char) {more : List Char} (h : more ≠ []) :
    lineCount (text ++ more) = text.count '\n' + lineCount more := by
  rw [lineCount, lineCount, List.dropLast_append_of_ne_nil h, List.count_append, Nat.add_assoc]

/-- The tokens of a text stand on its lines. -/
theorem scan_line : ∀ (line : Nat) (text : List Char) (toks : List Located),
    scan line text = .ok toks → ∀ t ∈ toks, line ≤ t.line ∧ t.line < line + lineCount text
  | line, [], toks, h => by
    rw [scan] at h
    cases h
    exact fun _ ht => absurd ht List.not_mem_nil
  | line, c :: cs, toks, h => by
    rw [scan] at h
    split at h
    · cases h
    · rename_i piece n hp
      dsimp only at h
      have htext : c :: cs = (c :: cs.take n) ++ cs.drop n := by
        rw [List.cons_append, List.take_append_drop]
      have hbehind (us : List Located)
          (hus : scan (line + (c :: cs.take n).count '\n') (cs.drop n) = .ok us) :
          ∀ t ∈ us, line ≤ t.line ∧ t.line < line + lineCount (c :: cs) := by
        intro t ht
        -- where a token stands behind the piece, the piece does not end the text
        have hne : cs.drop n ≠ [] := by
          intro hnil
          rw [hnil, scan] at hus
          cases hus
          cases ht
        have := scan_line _ _ _ hus t ht
        rw [htext, lineCount_append _ hne]
        omega
      split at h
      · cases h
      · exact hbehind toks h
      · obtain ⟨us, hus, rfl⟩ := map_cons_eq_ok h
        intro t ht
        rcases List.mem_cons.1 ht with rfl | ht
        · exact ⟨Nat.le_refl line, Nat.lt_add_of_pos_right (Nat.succ_pos _)⟩
        · exact hbehind us hus t ht
termination_by _ text => text.length
decreasing_by simp only [List.length_drop, List.length_cons]; omega

/-- A token of a source text stands on one of its lines. -/
theorem tokenize_line {source : String} {toks : List Located} (h : tokenize source = .ok toks)
    {t : Located} (ht : t ∈ toks) : 1 ≤ t.line ∧ t.line ≤ lineCount source.toList := by
  have := scan_line 1 source.toList toks h t ht
  omega

end Token

end SmallJava
