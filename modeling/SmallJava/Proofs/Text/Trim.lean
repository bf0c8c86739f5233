/-
Trimming a text. What is left has no white space at its ends, and nothing but white space was taken
off: by these two the trimmed text is known. Main statement: `trims_iff`.
-/
import SmallJava.Proofs.Text.Words

namespace SmallJava.Text

/-- The text is the core between white space, and the core has none at its ends. -/
structure Trims (text core : List Char) : Prop where
  split : ∃ before after, (∀ c ∈ before, isBlank c = true) ∧ (∀ c ∈ after, isBlank c = true) ∧
    text = before ++ core ++ after
  head : ∀ c ∈ core.head?, isBlank c = false
  last : ∀ c ∈ core.getLast?, isBlank c = false

variable {text core cs : List Char}

/-! ## One end -/

theorem trimStart_append (h : ∀ c ∈ core, isBlank c = true) (cs : List Char) :
    trimStart (core ++ cs) = trimStart cs := List.dropWhile_append_of_pos h

theorem trimStart_eq_self (h : ∀ c ∈ cs.head?, isBlank c = false) : trimStart cs = cs := by
  cases cs with
  | nil => rfl
  | cons c cs => simp [trimStart, h c rfl]

theorem isBlank_head_trimStart (cs : List Char) :
    ∀ c ∈ (trimStart cs).head?, isBlank c = false := by
  intro c hc
  have hhead := List.head?_dropWhile_not isBlank cs
  rw [show (cs.dropWhile isBlank).head? = some c from hc] at hhead
  simpa using hhead

/-! ## Both ends -/

theorem Trims.trim_eq (h : Trims text core) : trim text = core := by
  obtain ⟨⟨before, after, hbefore, hafter, rfl⟩, hhead, hlast⟩ := h
  have hstart : trimStart (before ++ core ++ after) = trimStart (core ++ after) := by
    rw [List.append_assoc, trimStart_append hbefore]
  cases core with
  | nil =>
    have hnone : trimStart after = [] := List.dropWhile_eq_nil_iff.2 hafter
    rw [trim, hstart, List.nil_append, hnone]
    rfl
  | cons c cs =>
    have hfront : trimStart (c :: cs ++ after) = c :: cs ++ after :=
      trimStart_eq_self fun d hd => hhead d hd
    have hback : trimStart (c :: cs).reverse = (c :: cs).reverse :=
      trimStart_eq_self fun d hd => hlast d (by rwa [List.head?_reverse] at hd)
    rw [trim, hstart, hfront, List.reverse_append, trimStart_append (by simpa using hafter), hback,
      List.reverse_reverse]

theorem trims_trim (text : List Char) : Trims text (trim text) := by
  -- white space goes from the start, and from the start of what is left read backwards
  obtain ⟨before, hbefore, hsplit⟩ := exists_trimStart text
  obtain ⟨after, hafter, hreverse⟩ := exists_trimStart (trimStart text).reverse
  have hcore : trimStart text = trim text ++ after.reverse := by
    rw [← List.reverse_reverse (trimStart text), hreverse, List.reverse_append, trim]
  refine ⟨⟨before, after.reverse, hbefore, by simpa using hafter, ?_⟩, fun c hc => ?_, ?_⟩
  · rw [List.append_assoc, ← hcore]
    exact hsplit
  · refine isBlank_head_trimStart text c ?_
    rw [hcore, List.head?_append, show (trim text).head? = some c from hc]
    rfl
  · rw [trim, List.getLast?_reverse]
    exact isBlank_head_trimStart _

/-- Trimming leaves the one core of a text. -/
theorem trims_iff : Trims text core ↔ trim text = core := by
  constructor
  · exact Trims.trim_eq
  · rintro rfl
    exact trims_trim text

theorem trim_eq_self (h : ∀ c ∈ cs, isBlank c = false) : trim cs = cs :=
  Trims.trim_eq ⟨⟨[], [], by simp, by simp, by simp⟩, fun c hc => h c (List.mem_of_mem_head? hc),
    fun c hc => h c (List.mem_of_getLast? hc)⟩

theorem isBlank_of_isDigit {c : Char} (h : c.isDigit = true) : isBlank c = false := by
  simp only [Char.isDigit, Bool.and_eq_true, decide_eq_true_eq, UInt32.le_iff_toNat_le] at h
  have hlow : 48 ≤ c.toNat := h.1
  have hhigh : c.toNat ≤ 57 := h.2
  simp [isBlank]
  omega

end SmallJava.Text
