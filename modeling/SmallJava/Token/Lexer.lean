/-
Tokens of a source text. The text is cut into its longest pieces from left to right; blanks, line
breaks and comments are left out, and every token carries one more than the number of line feeds
before it.
-/
import SmallJava.Text.Quoted
import SmallJava.Token.Piece

namespace SmallJava

/-! ## Failures -/

/-- Why a source text has no tokens: a slice that is no piece or a text with an unknown escape, or a
number beyond all doubles. -/
inductive LexError
  | unrecognized (slice : String) (line : Nat)
  | tooLarge (slice : String) (line : Nat)
deriving DecidableEq, Repr

/-- The failure as a message. -/
def LexError.message : LexError → String
  | unrecognized slice line => s!"Error on line {line}: Unrecognized input: {slice}."
  | tooLarge slice line => s!"Error on line {line}: Numeric literal {slice} is too large."

namespace Token

/-! ## One piece -/

/-- The number a piece writes. -/
def ofNumber? (slice : List Char) : Option Token :=
  match Double.ofNumeral? false slice with
  | some x => if x.isFinite then some (.number x) else none
  | none => none

/-- The keyword or name a piece writes. -/
def ofWord (slice : List Char) : Token :=
  let word := String.ofList slice
  match Keyword.ofSpelling? word with
  | some k => .keyword k
  | none => .name word

/-- The symbol a piece writes. -/
def ofSymbol? : List Char → Option Token
  | c :: _ => (Symbol.ofChar? c).map .symbol
  | [] => none

/-- The token a piece writes, nothing for a piece that is left out. -/
def ofPiece (piece : Piece) (slice : List Char) (line : Nat) : Except LexError (Option Token) :=
  match piece with
  | .number =>
    match ofNumber? slice with
    | some t => .ok (some t)
    | none => .error (.tooLarge (.ofList slice) line)
  | .quoted =>
    match Text.Quoted.unquote? slice with
    | some content => .ok (some (.text (.ofList content)))
    | none => .error (.unrecognized (.ofList slice) line)
  | .word => .ok (some (ofWord slice))
  | .symbol =>
    match ofSymbol? slice with
    | some t => .ok (some t)
    | none => .error (.unrecognized (.ofList slice) line)
  | .blanks | .lineBreak | .lineComment | .blockComment => .ok none

/-! ## The whole text -/

/-- The tokens of a text whose first line has the given number. -/
def scan (line : Nat) : List Char → Except LexError (List Located)
  | [] => .ok []
  | c :: cs =>
    match Piece.first? c cs with
    | none => .error (.unrecognized (.ofList (c :: cs.take (Piece.strayExtent c cs))) line)
    | some (piece, extent) =>
      let slice := c :: cs.take extent
      match ofPiece piece slice line with
      | .error e => .error e
      | .ok none => scan (line + slice.count '\n') (cs.drop extent)
      | .ok (some t) => (scan (line + slice.count '\n') (cs.drop extent)).map (⟨t, line⟩ :: ·)
termination_by cs => cs.length
decreasing_by all_goals simp only [List.length_drop, List.length_cons]; omega

/-- The tokens of a source text. -/
def tokenize (source : String) : Except LexError (List Located) := scan 1 source.toList

end Token

end SmallJava
