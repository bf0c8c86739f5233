/-
Texts cut at byte offsets. A cut is possible only between two characters; an offset inside of one or
beyond the end cuts nothing. Main statements: `cut?_eq_some`, and the cuts that reading makes fall
between characters: behind the first and before the last quote of a quoted text, behind a word, and
before the end of a line.
-/
import SmallJava.Proofs.Console.Input
import SmallJava.Token.Lexer

namespace SmallJava.Text

open Console (bytesOf)

/-! ## Offsets -/

/-- How many bytes a text has. -/
def byteSize (cs : List Char) : Nat := (bytesOf cs).length

/-- The text before a byte offset and the text from there on, if the offset is between characters. -/
def cut? : Nat → List Char → Option (List Char × List Char)
  | 0, cs => some ([], cs)
  | _ + 1, [] => none
  | n + 1, c :: cs =>
    if c.utf8Size ≤ n + 1 then
      (cut? (n + 1 - c.utf8Size) cs).map fun parts => (c :: parts.1, parts.2)
    else none

/-- The text between two byte offsets. -/
def slice? (first last : Nat) (cs : List Char) : Option (List Char) := do
  let (upToLast, _) ← cut? last cs
  let (_, slice) ← cut? first upToLast
  return slice

/-- The byte offset of the first character that has a property. -/
def offset? (p : Char → Bool) : List Char → Option Nat
  | [] => none
  | c :: cs => if p c then some 0 else (offset? p cs).map (c.utf8Size + ·)

@[simp] theorem byteSize_nil : byteSize [] = 0 := rfl

@[simp] theorem byteSize_cons (c : Char) (cs : List Char) :
    byteSize (c :: cs) = c.utf8Size + byteSize cs := by
  simp [byteSize, Console.bytesOf_cons]

@[simp] theorem byteSize_append (as bs : List Char) :
    byteSize (as ++ bs) = byteSize as + byteSize bs := by
  simp [byteSize, bytesOf]

/-! ## Cuts -/

theorem cut?_zero (cs : List Char) : cut? 0 cs = some ([], cs) := by
  cases cs <;> rfl

/-- A text is cut at the size of any beginning of it. -/
theorem cut?_append (before after : List Char) :
    cut? (byteSize before) (before ++ after) = some (before, after) := by
  induction before with
  | nil => exact cut?_zero after
  | cons c cs ih =>
    have hc := c.utf8Size_pos
    obtain ⟨n, hn⟩ : ∃ n, c.utf8Size + byteSize cs = n + 1 := ⟨_, (Nat.succ_pred (by omega)).symm⟩
    have hrest : n + 1 - c.utf8Size = byteSize cs := by omega
    rw [byteSize_cons, hn, List.cons_append, cut?, if_pos (by omega), hrest, ih]
    rfl

theorem eq_of_cut? {cs before after : List Char} {n : Nat} (h : cut? n cs = some (before, after)) :
    cs = before ++ after ∧ byteSize before = n := by
  induction cs generalizing n before with
  | nil =>
    cases n with
    | zero => cases h; exact ⟨rfl, rfl⟩
    | succ n => cases h
  | cons c cs ih =>
    cases n with
    | zero => cases h; exact ⟨rfl, rfl⟩
    | succ n =>
      rw [cut?] at h
      split at h
      · rename_i hle
        obtain ⟨⟨rest, after⟩, hcut, heq⟩ := Option.map_eq_some_iff.1 h
        cases heq
        obtain ⟨rfl, hsize⟩ := ih hcut
        refine ⟨rfl, ?_⟩
        rw [byteSize_cons, hsize]
        omega
      · cases h

/-- A cut is possible exactly at the size of a beginning of the text. -/
theorem cut?_eq_some {n : Nat} {cs before after : List Char} :
    cut? n cs = some (before, after) ↔ cs = before ++ after ∧ byteSize before = n := by
  constructor
  · exact eq_of_cut?
  · rintro ⟨rfl, rfl⟩
    exact cut?_append before after

theorem slice?_of_append (before middle after : List Char) :
    slice? (byteSize before) (byteSize (before ++ middle)) (before ++ middle ++ after) =
      some middle := by
  have hlast : cut? (byteSize (before ++ middle)) (before ++ middle ++ after) =
      some (before ++ middle, after) := cut?_append _ after
  have hfirst : cut? (byteSize before) (before ++ middle) = some (before, middle) :=
    cut?_append before middle
  rw [slice?, hlast]
  simp [hfirst]

/-! ## Quoted texts -/

/-- The extent of a quoted text ends with a quote. -/
theorem exists_of_quotedExtent? {cs : List Char} {n : Nat}
    (h : Piece.quotedExtent? cs = some n) : ∃ body, cs.take n = body ++ ['"'] := by
  fun_induction Piece.quotedExtent? cs generalizing n with
  | case1 => cases h
  | case2 =>
    cases h
    exact ⟨[], rfl⟩
  | case3 => cases h
  | case4 => cases h
  | case5 => cases h
  | case6 e rest _ _ _ ih =>
    obtain ⟨m, hm, rfl⟩ := Option.map_eq_some_iff.1 h
    obtain ⟨body, hbody⟩ := ih hm
    exact ⟨_ :: e :: body, by rw [List.take_succ_cons, List.take_succ_cons, hbody]; rfl⟩
  | case7 c cs _ _ _ ih =>
    obtain ⟨m, hm, rfl⟩ := Option.map_eq_some_iff.1 h
    obtain ⟨body, hbody⟩ := ih hm
    exact ⟨c :: body, by rw [List.take_succ_cons, hbody]; rfl⟩

/-- Only a quote starts a quoted text. -/
theorem quoted_of_first? {c : Char} {cs : List Char} {n : Nat}
    (h : Piece.first? c cs = some (.quoted, n)) : c = '"' ∧ Piece.quotedExtent? cs = some n := by
  unfold Piece.first? at h
  split at h
  · cases h
  split at h
  · cases h
  split at h
  · cases h
  split at h
  · rename_i hc
    obtain ⟨m, hm, heq⟩ := Option.map_eq_some_iff.1 h
    cases heq
    exact ⟨hc, hm⟩
  · exfalso
    split at h
    · cases h
    · cases h
    · cases h
    · split at h <;> cases h
    · obtain ⟨s, -, heq⟩ := Option.map_eq_some_iff.1 h
      cases heq

/-- A piece that is a quoted text can be cut behind its first byte and before its last one, and what
is between them is decoded. -/
theorem slice?_of_quoted {c : Char} {cs : List Char} {n : Nat}
    (h : Piece.first? c cs = some (.quoted, n)) : ∃ body,
      slice? 1 (byteSize (c :: cs.take n) - 1) (c :: cs.take n) = some body ∧
      Quoted.unquote? (c :: cs.take n) = Quoted.decode body := by
  obtain ⟨rfl, hn⟩ := quoted_of_first? h
  obtain ⟨body, hbody⟩ := exists_of_quotedExtent? hn
  refine ⟨body, ?_, by simp [hbody, Quoted.unquote?, Quoted.strip?]⟩
  have hquote : byteSize ['"'] = 1 := by decide
  have hsize : byteSize ('"' :: cs.take n) - 1 = byteSize (['"'] ++ body) := by
    rw [hbody, ← List.singleton_append, byteSize_append, byteSize_append, byteSize_append, hquote]
    omega
  have hslice := slice?_of_append ['"'] body ['"']
  rw [hquote] at hslice
  rw [hsize, hbody]
  exact hslice

/-! ## Words and lines -/

/-- The first character with a property stands behind all that lack it. -/
theorem offset?_eq (p : Char → Bool) (cs : List Char) :
    (offset? p cs).getD (byteSize cs) = byteSize (cs.takeWhile (!p ·)) := by
  induction cs with
  | nil => rfl
  | cons c cs ih =>
    rw [offset?, List.takeWhile_cons]
    cases hc : p c with
    | true => rfl
    | false =>
      simp only [Bool.not_false, if_true, Bool.false_eq_true, if_false, byteSize_cons, ← ih]
      cases offset? p cs <;> rfl

/-- A text is cut behind its first word at the offset of the first white space, or at its end. -/
theorem cut?_splitWord (cs : List Char) :
    cut? ((offset? isBlank cs).getD (byteSize cs)) cs = some (splitWord cs) :=
  cut?_eq_some.2 ⟨List.takeWhile_append_dropWhile.symm, (offset?_eq isBlank cs).symm⟩

/-- A line is cut before its end. -/
theorem cut?_dropLineEnd (cs : List Char) :
    (cut? (byteSize (Console.dropLineEnd cs)) cs).map Prod.fst = some (Console.dropLineEnd cs) := by
  obtain ⟨ending, -, h⟩ := Console.exists_dropLineEnd cs
  rw [cut?_eq_some.2 ⟨h, rfl⟩]
  rfl

/-- No cut falls inside the two bytes of `é`. -/
example : cut? 1 "é!".toList = none ∧ cut? 2 "é!".toList = some (['é'], ['!']) := by decide

end SmallJava.Text
