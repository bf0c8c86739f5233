/-
Text written so that every character of it can be told apart: in quotes, with a backslash before a
quote or a backslash, a letter for the common controls, and the code point of any other character
that leaves no mark of its own.
-/
import SmallJava.Text.Invisible

namespace SmallJava.Text

/-- The code point of a character, in hexadecimal digits. -/
def codePoint (c : Char) : List Char :=
  '\\' :: 'u' :: '{' :: Nat.toDigits 16 c.toNat ++ ['}']

/-- A character between quotes. -/
def visibleChar (c : Char) : List Char :=
  match c with
  | '\x00' => ['\\', '0']
  | '\t' => ['\\', 't']
  | '\n' => ['\\', 'n']
  | '\r' => ['\\', 'r']
  | '"' => ['\\', '"']
  | '\\' => ['\\', '\\']
  | _ => if isInvisible c then codePoint c else [c]

/-- The text in quotes, every character visible. -/
def visible (text : String) : String :=
  .ofList ('"' :: text.toList.flatMap visibleChar ++ ['"'])

end SmallJava.Text
