/-
The console: the bytes a program can still read, what it holds of a line it has taken words from,
and the bytes it has printed. Reading never looks beyond the line feed that ends a line, and
printing stops at the byte where the output is full.
-/
import SmallJava.Text.Blank

namespace SmallJava

/-- The streams of a program. `limit` is how many bytes the output takes in all. -/
structure Console where
  unread : List UInt8
  held : Option (List Char)
  printed : ByteArray
  limit : Option Nat

namespace Console

/-- The console before a program runs. -/
def start (input : ByteArray) (limit : Option Nat) : Console := ⟨input.toList, none, .empty, limit⟩

/-! ## Printing -/

/-- Prints a text as far as the output takes it, and tells whether it took all. -/
def print (text : String) (c : Console) : Bool × Console :=
  let bytes := text.toUTF8
  match c.limit with
  | none => (true, { c with printed := c.printed ++ bytes })
  | some limit =>
    let room := limit - c.printed.size
    if bytes.size ≤ room then (true, { c with printed := c.printed ++ bytes })
    else (false, { c with printed := c.printed ++ bytes.extract 0 room })

/-! ## Lines -/

/-- What reading from the input gives: characters, or nothing because they are no text or because
the input has ended. -/
inductive Taken
  | chars (cs : List Char)
  | invalid
  | ended

/-- The bytes up to the first line feed, that one included, and the bytes after it. -/
def splitLine : List UInt8 → List UInt8 × List UInt8
  | [] => ([], [])
  | b :: bs =>
    if b = 10 then ([b], bs)
    else
      let (line, rest) := splitLine bs
      (b :: line, rest)

/-- Whether a character belongs to the end of a line. -/
def isLineEnd (c : Char) : Bool := c = '\n' || c = '\r'

/-- A line without the line feeds and carriage returns at its end. -/
def dropLineEnd (cs : List Char) : List Char := (cs.reverse.dropWhile isLineEnd).reverse

/-- Takes a line of the input. A line that is not valid text is taken all the same. -/
def takeLine (c : Console) : Taken × Console :=
  if c.unread = [] then (.ended, c)
  else
    let (line, rest) := splitLine c.unread
    let taken := match String.fromUTF8? ⟨line.toArray⟩ with
      | some text => .chars (dropLineEnd text.toList)
      | none => .invalid
    (taken, { c with unread := rest })

/-! ## Scanning -/

/-- Takes what is held of a line, or else a line of the input. -/
def nextLine (c : Console) : Taken × Console :=
  match c.held with
  | some cs => (.chars cs, { c with held := none })
  | none => takeLine c

/-- Takes a word and holds what follows it on its line; passes over at most `bound` blank lines. -/
def nextWordWithin : Nat → Console → Taken × Console
  | 0, c => (.ended, c)
  | bound + 1, c =>
    match nextLine c with
    | (.chars cs, c) =>
      match Text.trimStart cs with
      | [] => nextWordWithin bound c
      | first :: others =>
        let (word, rest) := Text.splitWord (first :: others)
        (.chars word, { c with held := some rest })
    | (failed, c) => (failed, c)

/-- Takes a word. Every line but one that is held has a byte of the input, so their number is
bounded by that of the bytes. -/
def nextWord (c : Console) : Taken × Console := nextWordWithin (c.unread.length + 2) c

end Console

end SmallJava
