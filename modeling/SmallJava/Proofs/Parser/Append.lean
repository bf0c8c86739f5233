/-
Programs one after another. Where a statement ends is settled by its own tokens, so nothing that
follows a program changes how the program is read. Main statement: `program_append`, the tokens of a
program in front of any others are read as its statements in front of what the others are read as.
-/
import SmallJava.Proofs.Parser.Language

namespace SmallJava.Parser

theorem statementsAll_append {ts : List Located} {ss : List Statement}
    (h : Derivation.Statements ts ss) (us : List Located) :
    statementsAll (ts ++ us) = ((ss ++ ·) <$> statementsAll) us := by
  induction ss generalizing ts with
  | nil =>
    cases h
    rw [List.nil_append, map_apply]
    cases statementsAll us <;> rfl
  | cons s ss ih =>
    cases h with
    | @cons ts vs _ _ h hs =>
      -- the first statement ends where it did, whatever stands behind it now
      have hstep : statement (ts ++ (vs ++ us)) = .ok s (vs ++ us) := statement_complete h _
      rw [List.append_assoc]
      cases hall : ts ++ (vs ++ us) with
      | nil =>
        rw [hall] at hstep
        cases hstep
      | cons t rest =>
        rw [statementsAll_cons, ← hall, bind_of_ok hstep, bind_apply, ih hs, map_apply, map_apply]
        cases statementsAll us <;> rfl

theorem program_apply (toks : List Located) :
    program toks = (Program.mk <$> statementsAll) toks := rfl

/-- Tokens behind those of a program are read as if they stood alone: they are a program exactly if
they were one, whose statements then stand behind those of the first, which loses its start, and
otherwise they are refused for the same reason and in front of the same tokens. -/
theorem program_append {as rest : List Located} {p : Program} (h : program as = .ok p rest) :
    ∃ ss, p.statements = ss ++ [.entry] ∧ ∀ bs, program (as ++ bs) =
      match program bs with
      | .ok q rest => .ok ⟨ss ++ q.statements⟩ rest
      | .error e rest => .error e rest := by
  obtain ⟨-, ⟨hss⟩⟩ := program_sound h
  refine ⟨_, rfl, fun bs => ?_⟩
  rw [program_apply, program_apply, map_apply, map_apply, statementsAll_append hss, map_apply]
  cases statementsAll bs <;> rfl

/-- A declaration in front of an assignment without a value. -/
theorem program_append_missing_value : ∃ as bs p,
    as = [⟨.name "int", 1⟩, ⟨.name "x", 1⟩, ⟨.symbol .semicolon, 1⟩] ∧
    bs = [⟨.name "x", 2⟩, ⟨.symbol .equals, 2⟩, ⟨.symbol .semicolon, 3⟩] ∧
    program as = .ok p [] ∧ p.statements.length = 2 ∧
    program (as ++ bs) =
      .error (.unexpected .expression (.symbol .semicolon) 3) [⟨.symbol .semicolon, 3⟩] := by
  have h : program [⟨.name "int", 1⟩, ⟨.name "x", 1⟩, ⟨.symbol .semicolon, 1⟩] =
      .ok ⟨[.declareVariable ⟨"int", 0⟩ "x" none 1, .entry]⟩ [] := rfl
  obtain ⟨ss, -, hall⟩ := program_append h
  refine ⟨_, _, _, rfl, rfl, h, rfl, ?_⟩
  rw [hall]
  rfl

end SmallJava.Parser
