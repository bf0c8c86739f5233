/-
Words: the longest runs of characters that are not white space. Main statements: `words_append`, the
words of two texts that white space keeps apart are those of the one and then those of the other,
and `exists_of_words`, every word of a text stands at a place of its own.
-/
import SmallJava.Text.Blank
import Mathlib.Data.List.TakeWhile
import Mathlib.Tactic.Common

namespace SmallJava.Text

/-- The words of a text, in order. -/
def words (cs : List Char) : List (List Char) := (cs.splitOnP isBlank).filter (· ≠ [])

/-- The characters of a text that are not white space, in order. -/
def ink (cs : List Char) : List Char := cs.filter (!isBlank ·)

/-- White space comes last, or nothing at all. -/
def EndsBlank (cs : List Char) : Prop := ∀ c ∈ cs.getLast?, isBlank c = true

/-- White space comes first, or nothing at all. -/
def StartsBlank (cs : List Char) : Prop := ∀ c ∈ cs.head?, isBlank c = true

/-- A whole word between what is before it and what is after it. -/
structure IsWord (before word after : List Char) : Prop where
  nonempty : word ≠ []
  inked : ∀ c ∈ word, isBlank c = false
  starts : EndsBlank before
  ends : StartsBlank after

variable {cs before after w : List Char} {c : Char}

/-! ## Single pieces -/

@[simp] theorem words_nil : words [] = [] := rfl

theorem words_append_cons (hc : isBlank c = true) (cs after : List Char) :
    words (cs ++ c :: after) = words cs ++ words after := by
  rw [words, List.splitOnP_append_cons cs after hc, List.filter_append]
  rfl

theorem words_cons_of_blank (hc : isBlank c = true) (cs : List Char) :
    words (c :: cs) = words cs :=
  words_append_cons hc [] cs

theorem words_of_blank (h : ∀ c ∈ cs, isBlank c = true) : words cs = [] := by
  induction cs with
  | nil => rfl
  | cons c cs ih =>
    rw [words_cons_of_blank (h c List.mem_cons_self)]
    exact ih fun d hd => h d (List.mem_cons_of_mem c hd)

theorem words_of_inked (hne : w ≠ []) (h : ∀ c ∈ w, isBlank c = false) : words w = [w] := by
  rw [words, List.splitOnP_eq_singleton h]
  simp [hne]

/-! ## Two pieces -/

/-- White space between two texts keeps their words apart. -/
theorem words_append (h : EndsBlank before ∨ StartsBlank after) :
    words (before ++ after) = words before ++ words after := by
  rcases h with h | h
  · rcases List.eq_nil_or_concat before with rfl | ⟨init, c, rfl⟩
    · rfl
    · have hc : isBlank c = true := h c (by simp)
      have hinit : words (init.concat c) = words init := by
        rw [List.concat_eq_append, words_append_cons hc, words_nil, List.append_nil]
      rw [hinit, List.concat_eq_append, List.append_assoc, List.singleton_append,
        words_append_cons hc]
  · cases after with
    | nil => rw [words_nil, List.append_nil, List.append_nil]
    | cons c rest =>
      have hc : isBlank c = true := h c rfl
      rw [words_append_cons hc, words_cons_of_blank hc]

theorem endsBlank_of_blank (h : ∀ c ∈ cs, isBlank c = true) : EndsBlank cs :=
  fun c hc => h c (List.mem_of_getLast? hc)

theorem startsBlank_of_blank (h : ∀ c ∈ cs, isBlank c = true) : StartsBlank cs :=
  fun c hc => h c (List.mem_of_head? hc)

theorem words_append_blank (h : ∀ c ∈ after, isBlank c = true) :
    words (before ++ after) = words before := by
  rw [words_append (Or.inr (startsBlank_of_blank h)), words_of_blank h, List.append_nil]

theorem words_blank_append (h : ∀ c ∈ before, isBlank c = true) :
    words (before ++ after) = words after := by
  rw [words_append (Or.inl (endsBlank_of_blank h)), words_of_blank h, List.nil_append]

/-! ## Taking words off -/

/-- A text starts with white space and goes on with what trimming leaves. -/
theorem exists_trimStart (cs : List Char) :
    ∃ blanks, (∀ c ∈ blanks, isBlank c = true) ∧ cs = blanks ++ trimStart cs :=
  ⟨cs.takeWhile isBlank, fun _ => List.mem_takeWhile_imp, List.takeWhile_append_dropWhile.symm⟩

theorem words_trimStart (cs : List Char) : words (trimStart cs) = words cs := by
  obtain ⟨blanks, hblanks, hcs⟩ := exists_trimStart cs
  conv_rhs => rw [hcs]
  exact (words_blank_append hblanks).symm

/-- What trimming leaves starts with a whole word, if it leaves anything. -/
theorem isWord_splitWord (h : trimStart cs = c :: after) :
    IsWord [] (splitWord (c :: after)).1 (splitWord (c :: after)).2 where
  nonempty := by
    have hc : isBlank c = false := by
      have hhead := List.head?_dropWhile_not isBlank cs
      rw [show cs.dropWhile isBlank = c :: after from h] at hhead
      simpa using hhead
    rw [splitWord, List.takeWhile_cons_of_pos (by simp [hc])]
    exact List.cons_ne_nil _ _
  inked d hd := by simpa using List.mem_takeWhile_imp hd
  starts d hd := by cases hd
  ends d hd := by
    have hhead := List.head?_dropWhile_not (!isBlank ·) (c :: after)
    rw [show ((c :: after).dropWhile (!isBlank ·)).head? = some d from hd] at hhead
    simpa using hhead

theorem splitWord_append (cs : List Char) : (splitWord cs).1 ++ (splitWord cs).2 = cs :=
  List.takeWhile_append_dropWhile

theorem IsWord.words_eq (h : IsWord before w after) :
    words (before ++ w ++ after) = words before ++ w :: words after := by
  rw [words_append (Or.inr h.ends), words_append (Or.inl h.starts),
    words_of_inked h.nonempty h.inked, List.append_assoc]
  rfl

/-- Splitting the trimmed text takes off its first word. -/
theorem words_of_trimStart (h : trimStart cs = c :: after) :
    words cs = (splitWord (c :: after)).1 :: words (splitWord (c :: after)).2 := by
  have hwords := (isWord_splitWord h).words_eq
  rwa [List.nil_append, splitWord_append, ← h, words_trimStart, h] at hwords

/-! ## Where words stand -/

/-- The first word of a text stands after white space only. -/
theorem exists_of_words_cons {later : List (List Char)} (h : words cs = w :: later) :
    ∃ blanks after, cs = blanks ++ w ++ after ∧ IsWord blanks w after ∧ words blanks = [] ∧
      words after = later := by
  obtain ⟨blanks, hblanks, hcs⟩ := exists_trimStart cs
  cases ht : trimStart cs with
  | nil =>
    rw [← words_trimStart, ht] at h
    cases h
  | cons c rest =>
    have hword := isWord_splitWord ht
    rw [words_of_trimStart ht] at h
    obtain ⟨rfl, rfl⟩ := List.cons.inj h
    refine ⟨blanks, _, ?_, ⟨hword.nonempty, hword.inked, endsBlank_of_blank hblanks, hword.ends⟩,
      words_of_blank hblanks, rfl⟩
    rw [List.append_assoc, splitWord_append, ← ht]
    exact hcs

/-- A word of a text stands somewhere in it, after the words before it and before those after it. -/
theorem exists_of_words {earlier later : List (List Char)}
    (h : words cs = earlier ++ w :: later) : ∃ before after, cs = before ++ w ++ after ∧
      IsWord before w after ∧ words before = earlier ∧ words after = later := by
  induction earlier generalizing cs with
  | nil => exact exists_of_words_cons h
  | cons first earlier ih =>
    obtain ⟨blanks, rest, rfl, hfirst, hblanks, hrest⟩ := exists_of_words_cons h
    obtain ⟨before, after, rfl, hw, rfl, rfl⟩ := ih hrest
    -- what is between the two words is not empty and starts with white space
    have hbefore : before ≠ [] := by
      rintro rfl
      obtain ⟨c, cs, rfl⟩ := List.exists_cons_of_ne_nil hw.nonempty
      have hc : isBlank c = true := hfirst.ends c rfl
      rw [hw.inked c List.mem_cons_self] at hc
      cases hc
    have hstarts : StartsBlank before := by
      intro c hc
      refine hfirst.ends c ?_
      obtain ⟨d, ds, rfl⟩ := List.exists_cons_of_ne_nil hbefore
      exact hc
    refine ⟨blanks ++ first ++ before, after, by simp only [List.append_assoc],
      ⟨hw.nonempty, hw.inked, fun c hc => hw.starts c ?_, hw.ends⟩, ?_, rfl⟩
    · rwa [List.getLast?_append, List.getLast?_eq_some_getLast hbefore, Option.some_or,
        ← List.getLast?_eq_some_getLast hbefore] at hc
    · rw [IsWord.words_eq ⟨hfirst.nonempty, hfirst.inked, hfirst.starts, hstarts⟩, hblanks,
        List.nil_append]

/-! ## Characters -/

/-- The words of a text are its characters but for the white space. -/
theorem flatten_words (cs : List Char) : (words cs).flatten = ink cs := by
  rw [words, List.flatten_filter_ne_nil]
  induction cs with
  | nil => rfl
  | cons c cs ih =>
    rw [List.splitOnP_cons_eq_if_modifyHead, ink]
    cases hc : isBlank c with
    | true => simpa [hc, ink] using ih
    | false =>
      obtain ⟨first, others, hsplit⟩ :=
        List.exists_cons_of_ne_nil (List.splitOnP_ne_nil isBlank cs)
      rw [hsplit] at ih ⊢
      simpa [hc, ink] using ih

example : words " ab  c\n".toList = ["ab".toList, "c".toList] := by decide

end SmallJava.Text
