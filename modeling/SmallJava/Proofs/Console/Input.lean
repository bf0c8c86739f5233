/-
Valid input. Where the unread bytes are those of a text, a line is taken up to the first line feed
of the text, is itself valid, and leaves the bytes of the rest of the text. Main statements:
`Left.nextLine` and `Left.nextWord`, a line has the words that can be read next, and a word is the
first of them.
-/
import SmallJava.Console
import SmallJava.Proofs.Text.Words

namespace SmallJava.Console

open Text

/-- The bytes of a text. -/
def bytesOf (cs : List Char) : List UInt8 := cs.flatMap String.utf8EncodeChar

/-- The characters up to the first line feed, that one included, and the characters after it. -/
def firstLine : List Char → List Char × List Char
  | [] => ([], [])
  | c :: cs => if c = '\n' then ([c], cs) else (c :: (firstLine cs).1, (firstLine cs).2)

/-! ## Bytes -/

@[simp] theorem bytesOf_nil : bytesOf [] = [] := rfl

theorem bytesOf_cons (c : Char) (cs : List Char) :
    bytesOf (c :: cs) = String.utf8EncodeChar c ++ bytesOf cs := rfl

theorem bytesOf_eq_nil {cs : List Char} : bytesOf cs = [] ↔ cs = [] := by
  cases cs with
  | nil => simp
  | cons c cs => simp [bytesOf_cons, String.utf8EncodeChar_ne_nil]

theorem toList_loop (bs : ByteArray) (i : Nat) (taken : List UInt8) :
    ByteArray.toList.loop bs i taken = taken.reverse ++ bs.data.toList.drop i := by
  fun_induction ByteArray.toList.loop bs i taken with
  | case1 i taken h ih =>
    have hi : i < bs.data.toList.length := by simpa using h
    rw [ih, List.drop_eq_getElem_cons hi]
    simp [ByteArray.get!, h]
  | case2 i taken h =>
    rw [List.drop_eq_nil_of_le (by simpa using Nat.le_of_not_lt h)]
    simp

theorem toList_eq_data (bs : ByteArray) : bs.toList = bs.data.toList := by
  rw [ByteArray.toList, toList_loop]
  rfl

/-- The bytes of a text are those of its encoding. -/
theorem toList_toUTF8 (text : String) : text.toUTF8.toList = bytesOf text.toList := by
  rw [toList_eq_data, String.toUTF8_eq_toByteArray, ← String.utf8Encode_toList, List.utf8Encode,
    List.toList_data_toByteArray]
  rfl

/-- The bytes of a text are valid and those of no other text. -/
theorem fromUTF8?_bytesOf (cs : List Char) :
    String.fromUTF8? ⟨(bytesOf cs).toArray⟩ = some (String.ofList cs) := by
  have hbytes : (⟨(bytesOf cs).toArray⟩ : ByteArray) = (String.ofList cs).toByteArray := by
    rw [String.toByteArray_ofList, List.utf8Encode]
    exact ByteArray.ext List.data_toByteArray.symm
  rw [hbytes, String.fromUTF8?, dif_pos (String.ofList cs).isValidUTF8]
  rfl

/-- Only a line feed has the byte of a line feed. -/
theorem eq_of_ten_mem {c : Char} (h : 10 ∈ String.utf8EncodeChar c) : c = '\n' := by
  have hbyte {n : Nat} (hn : 10 < n % 256) : (10 : UInt8) ≠ UInt8.ofNat n := by
    intro h
    have := congrArg UInt8.toNat h
    rw [UInt8.toNat_ofNat'] at this
    simp at this
    omega
  unfold String.utf8EncodeChar at h
  dsimp only at h
  split at h
  · rename_i hc
    refine Char.ext (UInt32.toNat_inj.1 ?_)
    have := congrArg UInt8.toNat (List.mem_singleton.1 h)
    rw [UInt8.toNat_ofNat', Nat.mod_eq_of_lt (by omega)] at this
    exact this.symm
  · -- every byte of any other character is at least 128
    split at h
    · simp only [List.mem_cons, List.not_mem_nil, or_false] at h
      rcases h with h | h <;> exact absurd h (hbyte (by omega))
    · split at h
      · simp only [List.mem_cons, List.not_mem_nil, or_false] at h
        rcases h with h | h | h <;> exact absurd h (hbyte (by omega))
      · simp only [List.mem_cons, List.not_mem_nil, or_false] at h
        rcases h with h | h | h | h <;> exact absurd h (hbyte (by omega))

/-! ## Lines -/

theorem splitLine_append {bs : List UInt8} (h : 10 ∉ bs) (rest : List UInt8) :
    splitLine (bs ++ rest) = (bs ++ (splitLine rest).1, (splitLine rest).2) := by
  induction bs with
  | nil => rfl
  | cons b bs ih =>
    obtain ⟨hb, hbs⟩ := not_or.1 (fun h' => h (List.mem_cons.2 h'))
    rw [List.cons_append, splitLine, if_neg (Ne.symm hb), ih hbs]
    rfl

/-- The first line of the bytes is the first line of the text. -/
theorem splitLine_bytesOf (cs : List Char) :
    splitLine (bytesOf cs) = (bytesOf (firstLine cs).1, bytesOf (firstLine cs).2) := by
  induction cs with
  | nil => rfl
  | cons c cs ih =>
    by_cases hc : c = '\n'
    · subst hc
      rfl
    · rw [bytesOf_cons, splitLine_append (fun h => hc (eq_of_ten_mem h)), ih, firstLine, if_neg hc]
      rfl

theorem firstLine_append (cs : List Char) : (firstLine cs).1 ++ (firstLine cs).2 = cs := by
  induction cs with
  | nil => rfl
  | cons c cs ih =>
    rw [firstLine]
    split
    · rfl
    · rw [List.cons_append, ih]

/-- Nothing follows a line that does not end in a line feed. -/
theorem firstLine_ends (cs : List Char) :
    (firstLine cs).1.getLast? = some '\n' ∨ (firstLine cs).2 = [] := by
  induction cs with
  | nil => exact Or.inr rfl
  | cons c cs ih =>
    rw [firstLine]
    split
    · rename_i hc
      exact Or.inl (by rw [hc]; rfl)
    · rcases ih with h | h
      · refine Or.inl ?_
        rw [List.getLast?_cons, h]
        rfl
      · exact Or.inr h

/-- A line is what is left of it without its end, and line feeds and carriage returns. -/
theorem exists_dropLineEnd (cs : List Char) :
    ∃ ending, (∀ c ∈ ending, isLineEnd c = true) ∧ cs = dropLineEnd cs ++ ending := by
  refine ⟨(cs.reverse.takeWhile isLineEnd).reverse, fun c hc => ?_, ?_⟩
  · exact List.mem_takeWhile_imp (List.mem_reverse.1 hc)
  · rw [dropLineEnd, ← List.reverse_append, List.takeWhile_append_dropWhile, List.reverse_reverse]

theorem takeLine_of_text {c : Console} {cs : List Char} (h : c.unread = bytesOf cs) :
    c.takeLine = if cs = [] then (.ended, c)
      else (.chars (dropLineEnd (firstLine cs).1),
        { c with unread := bytesOf (firstLine cs).2 }) := by
  rw [takeLine, h, splitLine_bytesOf]
  by_cases hcs : cs = []
  · rw [if_pos hcs, if_pos (bytesOf_eq_nil.2 hcs)]
  · rw [if_neg hcs, if_neg (fun h => hcs (bytesOf_eq_nil.1 h))]
    simp only [fromUTF8?_bytesOf, String.toList_ofList]

/-! ## The loop that takes a word -/

/-- What bounds the number of lines that can still be taken. -/
def size (c : Console) : Nat := c.unread.length + c.held.toList.length

theorem length_splitLine (b : UInt8) (bs : List UInt8) :
    (splitLine (b :: bs)).2.length < (b :: bs).length := by
  induction bs generalizing b with
  | nil =>
    rw [splitLine]
    split <;> exact Nat.zero_lt_one
  | cons d bs ih =>
    rw [splitLine]
    split
    · exact Nat.lt_succ_self _
    · exact Nat.lt_succ_of_lt (ih d)

/-- Taking a line leaves fewer. -/
theorem size_takeLine {c : Console} (h : (takeLine c).1 ≠ .ended) :
    (takeLine c).2.size < c.size := by
  unfold takeLine at h ⊢
  split
  · rename_i hc
    rw [if_pos hc] at h
    exact absurd rfl h
  · rename_i hc
    obtain ⟨b, bs, hb⟩ := List.exists_cons_of_ne_nil hc
    rw [hb]
    exact Nat.add_lt_add_right (by rw [hb]; exact length_splitLine b bs) _

theorem size_nextLine {c : Console} (h : (nextLine c).1 ≠ .ended) :
    (nextLine c).2.size < c.size := by
  unfold nextLine at h ⊢
  cases hc : c.held with
  | none =>
    rw [hc] at h
    exact size_takeLine h
  | some cs => simp [size, hc]

/-- A bound that is large enough does not matter. -/
theorem nextWordWithin_eq {bound₁ : Nat} : ∀ {bound₂ : Nat} {c : Console}, c.size < bound₁ →
    c.size < bound₂ → nextWordWithin bound₁ c = nextWordWithin bound₂ c := by
  induction bound₁ with
  | zero => intro _ _ h; omega
  | succ bound₁ ih =>
    intro bound₂ c h₁ h₂
    obtain ⟨bound₂, rfl⟩ : ∃ n, bound₂ = n + 1 := ⟨bound₂ - 1, by omega⟩
    have hsize := size_nextLine (c := c)
    rw [nextWordWithin, nextWordWithin]
    generalize nextLine c = r at hsize
    obtain ⟨taken, d⟩ := r
    cases taken with
    | chars cs =>
      have hd : d.size < c.size := hsize (fun h => by cases h)
      dsimp only
      split
      · exact ih (by omega) (by omega)
      · rfl
    | invalid => rfl
    | ended => rfl

/-- Taking a word is a loop without a bound: blank lines are passed over until a line has a word or
there is none. -/
theorem nextWord_eq (c : Console) :
    c.nextWord = match c.nextLine with
      | (.chars cs, d) =>
        match trimStart cs with
        | [] => d.nextWord
        | first :: others =>
          (.chars (splitWord (first :: others)).1,
            { d with held := some (splitWord (first :: others)).2 })
      | (failed, d) => (failed, d) := by
  have hsize := size_nextLine (c := c)
  have hc : c.size ≤ c.unread.length + 1 := by
    unfold size
    cases c.held <;> simp
  rw [nextWord, nextWordWithin]
  generalize nextLine c = r at hsize
  obtain ⟨taken, d⟩ := r
  cases taken with
  | chars cs =>
    have hd : d.size < c.size := hsize (fun h => by cases h)
    have hd' : d.size ≤ d.unread.length + 1 := by
      unfold size
      cases d.held <;> simp
    dsimp only
    cases trimStart cs with
    | nil => exact nextWordWithin_eq (by omega) (by omega)
    | cons first others => rfl
  | invalid => rfl
  | ended => rfl

/-! ## Words that can still be read -/

/-- The unread bytes are those of a text, and the words are those of what is held and then those of
that text. -/
def Left (c : Console) (ws : List (List Char)) : Prop :=
  ∃ rest, c.unread = bytesOf rest ∧ ws = words (c.held.getD []) ++ words rest

theorem isBlank_of_isLineEnd {c : Char} (h : isLineEnd c = true) : isBlank c = true := by
  simp only [isLineEnd, Bool.or_eq_true, decide_eq_true_eq] at h
  rcases h with rfl | rfl <;> rfl

/-- The first line of a text has its first words. -/
theorem words_firstLine (cs : List Char) :
    words cs = words (dropLineEnd (firstLine cs).1) ++ words (firstLine cs).2 := by
  have hline : words (firstLine cs).1 = words (dropLineEnd (firstLine cs).1) := by
    obtain ⟨ending, hending, hcs⟩ := exists_dropLineEnd (firstLine cs).1
    conv_lhs => rw [hcs]
    exact words_append_blank fun c hc => isBlank_of_isLineEnd (hending c hc)
  rw [← hline, ← words_append, firstLine_append]
  rcases firstLine_ends cs with h | h
  · refine Or.inl fun c hc => ?_
    rw [h] at hc
    cases hc
    rfl
  · refine Or.inr fun c hc => ?_
    rw [h] at hc
    cases hc

/-- A line has the words that come first. -/
theorem Left.nextLine {c : Console} {ws : List (List Char)} (h : c.Left ws) :
    (c.nextLine = (.ended, c) ∧ ws = []) ∨
      ∃ cs d later, c.nextLine = (.chars cs, d) ∧ d.Left later ∧ d.held = none ∧
        ws = words cs ++ later := by
  obtain ⟨rest, hrest, rfl⟩ := h
  unfold Console.nextLine
  cases hheld : c.held with
  | some cs => exact Or.inr ⟨cs, _, words rest, rfl, ⟨rest, hrest, rfl⟩, rfl, rfl⟩
  | none =>
    rw [takeLine_of_text hrest]
    by_cases hne : rest = []
    · subst hne
      exact Or.inl ⟨if_pos rfl, rfl⟩
    · rw [if_neg hne]
      refine Or.inr ⟨_, _, words (firstLine rest).2, rfl, ⟨_, rfl, ?_⟩, hheld, words_firstLine rest⟩
      rw [hheld]
      rfl

/-- A word is the one that comes first. -/
theorem Left.nextWord {c : Console} {ws : List (List Char)} (h : c.Left ws) :
    (∃ d, c.nextWord = (.ended, d) ∧ d.Left [] ∧ ws = []) ∨
      ∃ w d later, c.nextWord = (.chars w, d) ∧ d.Left later ∧ ws = w :: later ∧
        words w = [w] := by
  -- over the lines that are blank
  induction hn : c.size using Nat.strong_induction_on generalizing c ws with
  | _ n ih =>
    have hsize := size_nextLine (c := c)
    rw [nextWord_eq]
    rcases h.nextLine with ⟨hline, rfl⟩ | ⟨cs, d, later, hline, hd, hheld, rfl⟩
    · rw [hline]
      exact Or.inl ⟨c, rfl, h, rfl⟩
    · rw [hline] at hsize ⊢
      dsimp only
      cases ht : trimStart cs with
      | nil =>
        have hwords : words cs = [] := by rw [← words_trimStart, ht, words_nil]
        rw [hwords, List.nil_append]
        exact ih d.size (hn ▸ hsize fun h => by cases h) hd rfl
      | cons first others =>
        obtain ⟨rest, hrest, rfl⟩ := hd
        have hword := isWord_splitWord ht
        refine Or.inr ⟨_, _, _, rfl, ⟨rest, hrest, rfl⟩, ?_,
          words_of_inked hword.nonempty hword.inked⟩
        rw [words_of_trimStart ht, hheld]
        rfl

end SmallJava.Console
