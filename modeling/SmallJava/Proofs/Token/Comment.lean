/-
Block comments. The pattern of block comments asks for the longest match, and yet a comment ends at
the first star and slash behind its opening: at the opening the pattern matches one text or none.
Where nothing closes the comment, the opening is two symbols. Main statement:
`scan_blockComment`.
-/
import SmallJava.Proofs.Token.Joined

namespace SmallJava

/-! ## The first close -/

namespace Piece

/-- The text is `body`, a star and a slash, and `after`, and the star and the slash are the first in
it that stand side by side. -/
structure ClosedBy (text body after : List Char) : Prop where
  split : text = body ++ '*' :: '/' :: after
  first : ¬ ['*', '/'] <:+: body ++ ['*']

variable {text body after cs : List Char} {c : Char}

/-- A comment is taken to end behind the first close. -/
theorem ClosedBy.closeExtent?_eq (h : ClosedBy text body after) :
    closeExtent? text = some (body.length + 2) := by
  obtain ⟨rfl, hfirst⟩ := h
  induction body with
  | nil => rfl
  | cons c body ih =>
    rw [List.cons_append, List.infix_cons_iff, not_or] at hfirst
    obtain ⟨hhead, htail⟩ := hfirst
    have hrest := ih htail
    rw [List.cons_append]
    by_cases hc : c = '*'
    · subst hc
      rw [Pattern.closeExtent?_star, hrest]
      · rfl
      · intro ds hslash
        refine hhead (List.cons_prefix_cons.2 ⟨rfl, ?_⟩)
        cases body with
        | nil => cases hslash
        | cons d body =>
          cases hslash
          exact List.cons_prefix_cons.2 ⟨rfl, List.nil_prefix⟩
    · rw [Pattern.closeExtent?_cons_of_ne hc, hrest]
      rfl

/-- A character in front of a text leaves its first close the first, unless the two make one. -/
theorem ClosedBy.cons (h : ClosedBy cs body after) (hc : ∀ ds, c = '*' → cs ≠ '/' :: ds) :
    ClosedBy (c :: cs) (c :: body) after where
  split := by rw [h.split, List.cons_append]
  first := by
    rw [List.cons_append, List.infix_cons_iff]
    rintro (hhead | htail)
    · obtain ⟨rfl, hslash⟩ := List.cons_prefix_cons.1 hhead
      cases hbody : body with
      | nil => rw [hbody] at hslash; cases (List.cons_prefix_cons.1 hslash).1
      | cons d ds =>
        rw [hbody] at hslash
        obtain ⟨rfl, -⟩ := List.cons_prefix_cons.1 hslash
        refine hc (ds ++ '*' :: '/' :: after) rfl ?_
        rw [h.split, hbody, List.cons_append]
    · exact h.first htail

/-- A text in which a star and a slash stand side by side has a first place where they do. -/
theorem exists_closedBy (h : ['*', '/'] <:+: text) : ∃ body after, ClosedBy text body after := by
  induction text with
  | nil => simp at h
  | cons c cs ih =>
    by_cases hhead : ['*', '/'] <+: c :: cs
    · obtain ⟨after, hafter⟩ := hhead
      exact ⟨[], after, hafter.symm, by decide⟩
    · obtain ⟨body, after, hbody⟩ := ih ((List.infix_cons_iff.1 h).resolve_left hhead)
      refine ⟨c :: body, after, hbody.cons fun ds hc hcs => hhead ?_⟩
      rw [hc, hcs]
      exact ⟨ds, rfl⟩

theorem closeExtent?_eq_none (h : ¬ ['*', '/'] <:+: text) : closeExtent? text = none := by
  induction text with
  | nil => rfl
  | cons c cs ih =>
    rw [List.infix_cons_iff, not_or] at h
    rw [closeExtent?, ih h.2]
    · rfl
    · rintro ds rfl rfl
      exact h.1 ⟨ds, rfl⟩

end Piece

/-! ## Comments -/

namespace Rule

open Pattern Piece

variable {rest body after w : List Char}

/-- What the pattern matches at the opening ends with the first close. -/
theorem mem_blockComment_prefix (h : ClosedBy rest body after) :
    w ∈ blockComment.pattern ∧ w <+: '/' :: '*' :: rest ↔ w = '/' :: '*' :: body ++ ['*', '/'] := by
  have hclose := h.closeExtent?_eq
  have hrest : rest = (body ++ ['*', '/']) ++ after := by rw [h.split, List.append_assoc]; rfl
  constructor
  · rintro ⟨hw, hp⟩
    obtain ⟨v, hv, rfl⟩ := mem_exactly_mul.1 hw
    obtain ⟨more, rfl⟩ := (List.prefix_append_right_inj ['/', '*']).1 hp
    -- what follows the word of the pattern does not move the close
    rw [closeExtent?_append (mem_commentRest.1 hv) more] at hclose
    have hlength : v.length = (body ++ ['*', '/']).length := by simpa using hclose
    rw [(List.append_inj hrest hlength).1]
    rfl
  · rintro rfl
    refine ⟨mem_exactly_mul.2 ⟨body ++ ['*', '/'], mem_commentRest.2 ?_, rfl⟩, after, ?_⟩
    · have htake := (closeExtent?_take hclose).1
      have hlength : (body ++ ['*', '/']).length = body.length + 2 := by simp
      rw [hrest, List.take_left' hlength] at htake
      rw [htake, hlength]
    · rw [hrest]
      simp

/-- Where nothing closes a comment, the pattern matches nothing. -/
theorem not_mem_blockComment (h : ¬ ['*', '/'] <:+: rest) :
    ∀ w ∈ blockComment.pattern, ¬ w <+: '/' :: '*' :: rest := by
  intro w hw hp
  obtain ⟨v, hv, rfl⟩ := mem_exactly_mul.1 hw
  obtain ⟨more, rfl⟩ := (List.prefix_append_right_inj ['/', '*']).1 hp
  have hclose := closeExtent?_append (mem_commentRest.1 hv) more
  rw [closeExtent?_eq_none h] at hclose
  cases hclose

/-- A closed comment is the longest piece at its opening. -/
theorem longest_blockComment (h : ClosedBy rest body after) :
    blockComment.Longest ('/' :: '*' :: body ++ ['*', '/']) after := by
  have hfound := found_blockComment rest
  rw [h.closeExtent?_eq] at hfound
  obtain ⟨rule, hpiece, hlongest⟩ := hfound
  obtain rfl : rule = blockComment := by cases rule <;> cases hpiece; rfl
  have hrest : rest = (body ++ ['*', '/']) ++ after := by rw [h.split, List.append_assoc]; rfl
  have hlength : (body ++ ['*', '/']).length = body.length + 2 := by simp
  rw [Nat.add_comm 1, List.take_succ_cons, List.drop_succ_cons, hrest, List.take_left' hlength,
    List.drop_left' hlength] at hlongest
  exact hlongest

end Rule

namespace Token

open Piece

/-- At a slash and a star the pattern of block comments matches if a star and a slash follow side by
side, and then it matches one text, which ends with the first of them: that is skipped, with the line
feeds in it counted. Otherwise the slash and the star are two symbols, and the scanner goes on right
behind them. -/
theorem scan_blockComment (line : Nat) (rest : List Char) :
    ((∃ w ∈ Rule.blockComment.pattern, w <+: '/' :: '*' :: rest) ↔ ['*', '/'] <:+: rest) ∧
    (['*', '/'] <:+: rest → ∃ body after, ClosedBy rest body after) ∧
    (∀ body after, ClosedBy rest body after →
      (∀ w, w ∈ Rule.blockComment.pattern ∧ w <+: '/' :: '*' :: rest ↔
        w = '/' :: '*' :: body ++ ['*', '/']) ∧
      Rule.blockComment.Longest ('/' :: '*' :: body ++ ['*', '/']) after ∧
      scan line ('/' :: '*' :: rest) = scan (line + body.count '\n') after) ∧
    (¬ ['*', '/'] <:+: rest → scan line ('/' :: '*' :: rest) =
      (scan line rest).map fun toks => ⟨.symbol .slash, line⟩ :: ⟨.symbol .star, line⟩ :: toks) := by
  refine ⟨⟨?_, fun h => ?_⟩, exists_closedBy, fun body after h => ?_, fun h => ?_⟩
  · rintro ⟨w, hw, hp⟩
    by_contra h
    exact Rule.not_mem_blockComment h w hw hp
  · obtain ⟨body, after, hclosed⟩ := exists_closedBy h
    obtain ⟨hw, hp⟩ := (Rule.mem_blockComment_prefix hclosed).2 rfl
    exact ⟨_, hw, hp⟩
  · have hlongest := Rule.longest_blockComment h
    refine ⟨fun w => Rule.mem_blockComment_prefix h, hlongest, ?_⟩
    have htext : '/' :: '*' :: rest = '/' :: '*' :: body ++ ['*', '/'] ++ after := by
      rw [h.split]
      simp
    rw [htext, scan_longest hlongest]
    simp [ofPiece, Rule.piece]
  · have hslash : first? '/' ('*' :: rest) = some (.symbol, 0) := by
      simp [first?, isNameStart, isBlank, closeExtent?_eq_none h]
    have hstar : first? '*' rest = some (.symbol, 0) := first?_char (s := .star) (by decide) rest
    rw [scan_piece (t := .symbol .slash) hslash rfl, List.drop_zero,
      scan_piece (t := .symbol .star) hstar rfl, List.drop_zero]
    -- neither of the two is a line feed
    show ((scan line rest).map (⟨.symbol .star, line⟩ :: ·)).map (⟨.symbol .slash, line⟩ :: ·) = _
    cases scan line rest <;> rfl

/-- The star of the opening closes nothing, and of the stars before a slash the last one does. -/
theorem scan_blockComment_inner_slash :
    let rest := "/ \n **/ x".toList
    ClosedBy rest "/ \n *".toList " x".toList ∧
      scan 1 ('/' :: '*' :: rest) = scan 2 " x".toList ∧
      scan 1 "/* /".toList = (scan 1 " /".toList).map fun toks =>
        ⟨.symbol .slash, 1⟩ :: ⟨.symbol .star, 1⟩ :: toks := by
  intro rest
  have hclosed : ClosedBy rest "/ \n *".toList " x".toList := ⟨by decide, by decide⟩
  obtain ⟨-, -, hskip, -⟩ := scan_blockComment 1 rest
  obtain ⟨-, -, -, hopen⟩ := scan_blockComment 1 " /".toList
  exact ⟨hclosed, (hskip _ _ hclosed).2.2, hopen (by decide)⟩

end Token

end SmallJava
