/-
The language of the parser of programs. Main statement: it accepts exactly the token lists that the
written grammar derives, and gives the one tree in which every sign has the operands that the
documented grouping says.
-/
import SmallJava.Proofs.Parser.Completeness

namespace SmallJava.Parser

open SmallJava.Derivation

/-- A program is read exactly as the tree that its tokens have. -/
theorem program_eq_ok_iff {toks rest : List Located} {p : Program} :
    program toks = .ok p rest ↔ rest = [] ∧ Root toks p := by
  constructor
  · exact program_sound
  · rintro ⟨rfl, h⟩
    exact program_complete h

theorem root_unique {toks : List Located} {p q : Program} (hp : Root toks p)
    (hq : Root toks q) : q = p := by
  have h := program_complete hp
  rw [program_complete hq] at h
  cases h
  rfl

/-- The parser accepts the tokens that the grammar derives, whatever their lines, and answers with
the only documented tree. -/
theorem program_language (toks : List Located) :
    ((∃ p rest, program toks = .ok p rest) ↔ Grammar.Statements (words toks)) ∧
    ∀ p rest, program toks = .ok p rest ↔
      rest = [] ∧ Root toks p ∧ ∀ q, Root toks q → q = p := by
  refine ⟨?_, fun p rest => ?_⟩
  · rw [← exists_root_iff]
    constructor
    · rintro ⟨p, rest, h⟩
      exact ⟨p, (program_sound h).2⟩
    · rintro ⟨p, h⟩
      exact ⟨p, [], program_complete h⟩
  · rw [program_eq_ok_iff]
    constructor
    · rintro ⟨hr, h⟩
      exact ⟨hr, h, fun _ => root_unique h⟩
    · rintro ⟨hr, h, -⟩
      exact ⟨hr, h⟩

end SmallJava.Parser
