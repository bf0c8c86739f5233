/-
Quoted text as programs write it: five characters are written as a backslash and a letter, all
others as themselves. Main statement: decoding undoes encoding.
-/

namespace SmallJava.Text.Quoted

/-! ## Escapes -/

/-- What is written after the backslash for a character that needs one. -/
def escape? : Char → Option Char
  | '\n' => some 'n'
  | '\t' => some 't'
  | '\r' => some 'r'
  | '"' => some '"'
  | '\\' => some '\\'
  | _ => none

/-- The character that stands for a backslash and the given letter. -/
def unescape? : Char → Option Char
  | 'n' => some '\n'
  | 't' => some '\t'
  | 'r' => some '\r'
  | '"' => some '"'
  | '\\' => some '\\'
  | _ => none

theorem unescape?_escape? {c e : Char} (h : escape? c = some e) : unescape? e = some c := by
  unfold escape? at h
  split at h <;> simp at h <;> subst h <;> rfl

/-! ## Encoding and decoding -/

/-- The text as it is written between quotes. -/
def encode : List Char → List Char
  | [] => []
  | c :: cs =>
    match escape? c with
    | some e => '\\' :: e :: encode cs
    | none => c :: encode cs

/-- The text written between quotes; nothing where a backslash has no letter it can stand with. -/
def decode : List Char → Option (List Char)
  | [] => some []
  | c :: cs =>
    if c = '\\' then
      match cs with
      | [] => none
      | e :: rest => do
        let c ← unescape? e
        let text ← decode rest
        return c :: text
    else (decode cs).map (c :: ·)

theorem decode_cons {c : Char} (h : c ≠ '\\') (cs : List Char) :
    decode (c :: cs) = (decode cs).map (c :: ·) := by
  rw [decode.eq_def]
  simp [h]

theorem decode_encode (cs : List Char) : decode (encode cs) = some cs := by
  induction cs with
  | nil => rfl
  | cons c cs ih =>
    unfold encode
    cases he : escape? c with
    | some e => simp [decode, unescape?_escape? he, ih]
    | none =>
      have hc : c ≠ '\\' := by
        rintro rfl
        simp [escape?] at he
      simp [decode_cons hc, ih]

/-! ## Quotes -/

/-- The text between two quotes. -/
def strip? : List Char → Option (List Char)
  | '"' :: cs => if cs.getLast? = some '"' then some cs.dropLast else none
  | _ => none

/-- The text as a quoted literal. -/
def quote (cs : List Char) : List Char := '"' :: encode cs ++ ['"']

/-- The text of a quoted literal. -/
def unquote? (literal : List Char) : Option (List Char) := (strip? literal).bind decode

theorem unquote?_quote (cs : List Char) : unquote? (quote cs) = some cs := by
  simp [unquote?, quote, strip?, decode_encode]

end SmallJava.Text.Quoted
